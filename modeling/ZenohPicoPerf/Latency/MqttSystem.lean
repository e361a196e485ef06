import ZenohPicoPerf.Latency.ProbeBounds
import ZenohPicoPerf.Latency.Pacing
import ZenohPicoPerf.Mqtt.Session
import ZenohPicoPerf.Foundation.PubSub

/-!
# mqtt_pub_lat and mqtt_sub_lat together

Any number of mqtt_pub_lat processes publish through a broker to one
mqtt_sub_lat, all at quality of service 0: the broker may delay, reorder and
lose messages and delivers none twice.  Every process sets up its session
first, and the client library passes any topic length to the handler.

## Main results

* `rules` — what one step of a publisher and one run of the handler keep.
* `mqtt_lines_are_stamps` — the printed stamps are published ones, each at
  most once.
* `mqtt_steps_defined` — what is undefined in a reachable state: a division.
-/

namespace ZenohPicoPerf.Latency.MqttSystem

open ZenohPicoPerf.Foundation
open ZenohPicoPerf.Foundation.Memory
open ZenohPicoPerf.Foundation.Run
open ZenohPicoPerf.Common.Clock
open ZenohPicoPerf.Latency.Pacing
open ZenohPicoPerf.Mqtt
open ZenohPicoPerf.Mqtt.Session (Publication)

/-! ## The publisher -/

/-- `sizeof(size_t) + sizeof(size_t)` -/
def msgSize : Nat := 16

inductive PubPc where
  | setup
  | running
  | sleeping
deriving DecidableEq, Repr

/-- `stamps` records the clock readings that were published. -/
structure Publisher where
  msgsPerSecond : Word
  session : Session.State
  pc : PubPc
  data : List Byte
  stamps : List (Word × Word)
deriving DecidableEq, Repr

def startPublisher (msgsPerSecond : Word) : Option Publisher :=
  some { msgsPerSecond := msgsPerSecond
         session := Session.init .mqttPubLat
         pc := .setup, data := [], stamps := [] }

/-- A step of the session, the allocation behind `while (!ready);`, and the
two halves of the loop body. -/
inductive PubEvent where
  | session (e : Session.Event)
  | malloc (fresh : Buffer (msgSize + 1))
  | send (start : Timeval)
  | sleep
deriving DecidableEq, Repr

/-- `payloadlen` is 16; the byte behind the stamp is not sent. -/
def publish (p : Publisher) :
    PubEvent → Option (Publisher × Option Publication)
  | .session e => do
      let session ← Session.step p.session e
      some ({ p with session := session }, none)
  | .malloc fresh =>
      if p.session.looping ∧ p.pc = .setup then
        some ({ p with pc := .running, data := fresh.bytes }, none)
      else none
  | .send start =>
      if p.session.looping ∧ p.pc = .running then do
        let data ← stamp p.data msgSize start.tvSec start.tvUsec
        some ({ p with
                pc := .sleeping
                data := data
                stamps := p.stamps ++ [(start.tvSec, start.tvUsec)] },
              some { topicName := MqttSub.mqttTopic, payload := data.take 16 })
      else none
  | .sleep =>
      if p.session.looping ∧ p.pc = .sleeping then do
        let _ ← delay p.msgsPerSecond
        some ({ p with pc := .running }, none)
      else none

/-! ## The subscriber -/

structure Subscriber where
  msgsPerSecond : Word
  session : Session.State
  printed : List Line
deriving DecidableEq, Repr

def startSubscriber (msgsPerSecond : Word) : Subscriber :=
  { msgsPerSecond := msgsPerSecond
    session := Session.init .mqttSubLat
    printed := [] }

/-- What the library passes with a message, and the clock reading in the
handler. -/
structure Delivery where
  topicLen : CInt
  stop : Timeval
deriving DecidableEq, Repr

def handle (s : Subscriber) (m : Publication) (d : Delivery) :
    Option Subscriber := do
  let session ← Session.step s.session .message
  let printed ← MqttSub.dataHandler s.msgsPerSecond s.printed
    { topicName := m.topicName, topicLen := d.topicLen,
      payload := m.payload, stop := d.stop }
  some { s with session := session, printed := printed }

/-- A step of the session that is not the handler. -/
def internal (s : Subscriber) (e : Session.Event) : Option Subscriber :=
  if e = .message then none
  else do
    let session ← Session.step s.session e
    some { s with session := session }

abbrev State := PubSub.State Publisher Publication Subscriber

abbrev Event := PubSub.Event Word PubEvent Delivery Session.Event

def init (msgsPerSecond : Word) : State :=
  PubSub.init (startSubscriber msgsPerSecond)

def step : State → Event → Option State :=
  PubSub.step startPublisher publish handle internal

/-! ## One step of each party -/

/-- The publication of a stamp. -/
def publication (w : Word × Word) : Publication :=
  { topicName := MqttSub.mqttTopic, payload := stampBytes w.1 w.2 }

/-- The words that the handler decodes. -/
def words (m : Publication) : Word × Word :=
  leadingWords m.payload

theorem words_publication (w : Word × Word) : words (publication w) = w :=
  leadingWords_stamp w.1 w.2

/-- Behind the allocation there are 17 bytes. -/
def Allocated (p : Publisher) : Prop :=
  p.pc ≠ .setup → p.data.length = msgSize + 1

/-- A message on the topic with room for a stamp. -/
def Stamped (m : Publication) : Prop :=
  m.topicName = MqttSub.mqttTopic ∧ 16 ≤ m.payload.length

/-- What was printed is what stood in the handled messages. -/
def Printed (hs : List Publication) (s : Subscriber) : Prop :=
  s.printed.map Line.words = hs.map words

theorem publish_rule {p p' : Publisher} {e : PubEvent}
    {out : Option Publication} (hp : Allocated p)
    (h : publish p e = some (p', out)) :
    Allocated p' ∧ (∀ m ∈ out, Stamped m) ∧
      p'.stamps.map publication =
        p.stamps.map publication ++ out.toList := by
  cases e with
  | session e =>
      obtain ⟨session, -, hout⟩ := Option.bind_eq_some_iff.mp h
      obtain ⟨rfl, rfl⟩ := Prod.mk.inj (Option.some.inj hout)
      exact ⟨hp, by simp, by simp⟩
  | malloc fresh =>
      simp only [publish] at h
      split at h
      · obtain ⟨rfl, rfl⟩ := Prod.mk.inj (Option.some.inj h)
        exact ⟨fun _ => fresh.size, by simp, by simp⟩
      · cases h
  | send start =>
      simp only [publish] at h
      split at h
      · rename_i hrunning
        obtain ⟨data, hdata, hout⟩ := Option.bind_eq_some_iff.mp h
        obtain ⟨rfl, rfl⟩ := Prod.mk.inj (Option.some.inj hout)
        have hsize : p.data.length = msgSize + 1 := hp (by simp [hrunning.2])
        have hlength := (stamp_length hdata).trans hsize
        rw [stamp_eq (show 16 ≤ msgSize by decide) (by omega),
          Option.some.injEq] at hdata
        have hpayload : data.take 16 =
            stampBytes start.tvSec start.tvUsec := by
          rw [← hdata, List.take_left' (stampBytes_length _ _)]
        refine ⟨fun _ => hlength, ?_, ?_⟩
        · intro m hm
          obtain rfl := Option.mem_some_iff.mp hm
          refine ⟨rfl, ?_⟩
          rw [hpayload, stampBytes_length]
        · simp [publication, hpayload]
      · cases h
  | sleep =>
      simp only [publish] at h
      split at h
      · rename_i hsleeping
        obtain ⟨d, -, hout⟩ := Option.bind_eq_some_iff.mp h
        obtain ⟨rfl, rfl⟩ := Prod.mk.inj (Option.some.inj hout)
        exact ⟨fun _ => hp (by simp [hsleeping.2]), by simp, by simp⟩
      · cases h

/-- The handler prints the stamp of every message on the topic. -/
theorem handle_rule {hs : List Publication} {s s' : Subscriber}
    {m : Publication} {d : Delivery} (hs' : Printed hs s) (hm : Stamped m)
    (h : handle s m d = some s') : Printed (hs ++ [m]) s' := by
  obtain ⟨session, -, hhandler⟩ := Option.bind_eq_some_iff.mp h
  obtain ⟨printed, hprinted, hout⟩ := Option.bind_eq_some_iff.mp hhandler
  obtain rfl := Option.some.inj hout
  have htopic := ProbeBounds.onTopic_of_topic (m :=
    { topicName := m.topicName, topicLen := d.topicLen,
      payload := m.payload, stop := d.stop }) hm.1
  rw [MqttSub.dataHandler, if_pos htopic, MqttSub.measure,
    decode_of_length hm.2] at hprinted
  obtain rfl := Option.some.inj hprinted
  simp only [Printed, List.map_append, List.map_cons, List.map_nil]
  rw [hs']
  rfl

theorem internal_rule {hs : List Publication} {s s' : Subscriber}
    {e : Session.Event} (hs' : Printed hs s) (h : internal s e = some s') :
    Printed hs s' := by
  unfold internal at h
  split at h
  · cases h
  · obtain ⟨session, -, hout⟩ := Option.bind_eq_some_iff.mp h
    obtain rfl := Option.some.inj hout
    exact hs'

theorem rules : PubSub.Rules startPublisher publish handle internal Allocated
    Stamped Printed (fun p => p.stamps.map publication) where
  start := by
    intro a p hp
    obtain rfl := Option.some.inj hp
    exact ⟨fun hpc => absurd rfl hpc, rfl⟩
  publish _ _ _ _ hp h := publish_rule hp h
  handle _ _ _ _ _ hs hm h := handle_rule hs hm h
  internal _ _ _ _ hs h := internal_rule hs h

theorem holds {msgsPerSecond : Word} {es : List Event} {s : State}
    (h : exec step (init msgsPerSecond) es = some s) :
    PubSub.Holds Allocated Stamped Printed
      (fun p => p.stamps.map publication) s :=
  PubSub.exec_rule rules
    (show Printed [] (startSubscriber msgsPerSecond) from rfl) h

/-! ## End to end -/

/-- **Stamps end to end.**  In every run of the subscriber with any number of
publishers, the stamps of the printed lines are published stamps, each at most
once; those that were not printed are as many as the messages in flight and
lost.  So where nothing is in flight or lost, the lines are the published
stamps in some order. -/
theorem mqtt_lines_are_stamps (msgsPerSecond : Word) (es : List Event)
    (s : State) (h : exec step (init msgsPerSecond) es = some s) :
    ∃ rest, (s.sub.printed.map Line.words ++ rest).Perm
        (s.pubs.flatMap Publisher.stamps) ∧
      rest.length = s.link.flight.length + s.link.dropped.length := by
  have hholds := holds h
  have hperm := hholds.handled.map words
  have hpublished : (s.pubs.flatMap fun p => p.stamps.map publication).map
      words = s.pubs.flatMap Publisher.stamps := by
    simp [List.map_flatMap, words_publication, Function.comp_def]
  rw [List.map_append, hpublished] at hperm
  refine ⟨(s.link.flight ++ s.link.dropped).map words, ?_, ?_⟩
  · rw [show s.sub.printed.map Line.words = _ from hholds.sub]
    exact hperm
  · simp

/-! ## Steps that are defined -/

/-- In its loop a publisher can allocate and send; it can sleep unless its
rate is zero. -/
theorem publish_defined {p : Publisher} (hp : Allocated p)
    (hlooping : p.session.looping) :
    (p.pc = .setup → ∀ fresh, ∃ r, publish p (.malloc fresh) = some r) ∧
      (p.pc = .running → ∀ start, ∃ r, publish p (.send start) = some r) ∧
      (p.pc = .sleeping →
        ((∃ r, publish p .sleep = some r) ↔ p.msgsPerSecond ≠ 0)) := by
  refine ⟨?_, ?_, ?_⟩
  · intro hsetup fresh
    rw [publish, if_pos ⟨hlooping, hsetup⟩]
    exact ⟨_, rfl⟩
  · intro hrunning start
    have hsize : p.data.length = msgSize + 1 := hp (by simp [hrunning])
    rw [publish, if_pos ⟨hlooping, hrunning⟩,
      stamp_eq (show 16 ≤ msgSize by decide) (by omega)]
    exact ⟨_, rfl⟩
  · intro hsleeping
    rw [publish, if_pos ⟨hlooping, hsleeping⟩, ← delay_defined_iff]
    cases delay p.msgsPerSecond <;> simp

/-- The handler is defined on a stamped message whenever it can be called. -/
theorem handle_defined_iff {m : Publication} (hm : Stamped m) (s : Subscriber)
    (d : Delivery) :
    (∃ s', handle s m d = some s') ↔
      ∃ session, Session.step s.session .message = some session := by
  have htopic := ProbeBounds.onTopic_of_topic (m :=
    { topicName := m.topicName, topicLen := d.topicLen,
      payload := m.payload, stop := d.stop }) hm.1
  have hread := decode_of_length hm.2
  simp only [handle, MqttSub.dataHandler, if_pos htopic, MqttSub.measure,
    hread, Option.bind_eq_bind, Option.bind_some]
  cases Session.step s.session .message <;> simp

/-- **What can go wrong.**  In every reachable state the next statement of a
publisher in its loop is defined, with one exception: the division that paces
it, where the rate is zero.  And every message in flight can be handled, with
any topic length that the library passes, as soon as the library may call the
handler.  So no stamp is written or read outside its buffer. -/
theorem mqtt_steps_defined (msgsPerSecond : Word) (es : List Event) (s : State)
    (h : exec step (init msgsPerSecond) es = some s) :
    (∀ i p, s.pubs[i]? = some p → p.session.looping →
      (p.pc = .setup → ∀ fresh,
        ∃ s', step s (.publish i (.malloc fresh)) = some s') ∧
      (p.pc = .running → ∀ start,
        ∃ s', step s (.publish i (.send start)) = some s') ∧
      (p.pc = .sleeping →
        ((∃ s', step s (.publish i .sleep) = some s') ↔
          p.msgsPerSecond ≠ 0))) ∧
    ∀ i, i < s.link.flight.length → ∀ d,
      ((∃ s', step s (.deliver i d) = some s') ↔
        ∃ session, Session.step s.sub.session .message = some session) := by
  have hholds := holds h
  constructor
  · intro i p hp hlooping
    have hready := hholds.pubs p (List.mem_of_getElem? hp)
    simpa only [step, PubSub.publish_defined_iff hp] using
      publish_defined hready hlooping
  · intro i hi d
    exact hholds.deliver_defined_iff hi d fun m hm =>
      handle_defined_iff hm s.sub d

/-- The set-up of a publisher. -/
def connects (i : Nat) : List Event :=
  [.publish i (.session (.returned .create 0)),
    .publish i (.session (.returned .connect 0)),
    .publish i (.session .onConnect),
    .publish i (.session (.test .waitReady)),
    .publish i (.malloc ⟨List.replicate 17 8, rfl⟩)]

/-- Two publishers; the second one's message overtakes the first one's, and
the first one's second message is lost. -/
def overtaken : List Event :=
  [.internal (.returned .create 0), .internal (.returned .connect 0),
    .internal .onConnect, .internal (.test .waitReady),
    .internal (.returned .subscribe 0),
    .internal (.returned .setCallbacks 0), .join 10, .join 1] ++
  connects 0 ++ connects 1 ++
  [.publish 0 (.send ⟨1, 2⟩), .publish 1 (.send ⟨3, 4⟩), .deliver 1 ⟨0, ⟨5, 6⟩⟩,
    .publish 0 .sleep, .publish 0 (.send ⟨7, 8⟩), .deliver 0 ⟨9, ⟨9, 0⟩⟩,
    .drop 0]

theorem mqtt_lines_overtaken :
    ∃ s, exec step (init 10) overtaken = some s ∧
      ∃ rest, (s.sub.printed.map Line.words ++ rest).Perm
          (s.pubs.flatMap Publisher.stamps) ∧
        rest.length = s.link.flight.length + s.link.dropped.length :=
  ⟨_, rfl, mqtt_lines_are_stamps 10 overtaken _ rfl⟩

theorem mqtt_steps_defined_overtaken :
    ∃ s, exec step (init 10) overtaken = some s ∧
      (∀ i p, s.pubs[i]? = some p → p.session.looping →
        (p.pc = .setup → ∀ fresh,
          ∃ s', step s (.publish i (.malloc fresh)) = some s') ∧
        (p.pc = .running → ∀ start,
          ∃ s', step s (.publish i (.send start)) = some s') ∧
        (p.pc = .sleeping →
          ((∃ s', step s (.publish i .sleep) = some s') ↔
            p.msgsPerSecond ≠ 0))) ∧
      ∀ i, i < s.link.flight.length → ∀ d,
        ((∃ s', step s (.deliver i d) = some s') ↔
          ∃ session, Session.step s.sub.session .message = some session) :=
  ⟨_, rfl, mqtt_steps_defined 10 overtaken _ rfl⟩

end ZenohPicoPerf.Latency.MqttSystem
