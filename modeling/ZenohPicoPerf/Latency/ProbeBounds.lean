import ZenohPicoPerf.Latency.PingPong
import ZenohPicoPerf.Latency.MqttSub

/-!
# The bytes that the latency probes touch

z_ping_lat stamps a buffer of `payload_size` bytes and decodes what comes
back; mqtt_sub_lat decodes every message on its topic.  A stamp takes two
words whatever the lengths are, and no program compares a length with them.

## Main results

* `sends_defined_iff`, `dataHandler_defined_iff` — the accesses listed here
  are those of the programs, with `PingPong.deliver_defined_iff` for the echo.
* `probes_in_bounds_iff` — which sizes and lengths they stay in, and that the
  programs run on exactly these.
-/

namespace ZenohPicoPerf.Latency.ProbeBounds

open ZenohPicoPerf.Foundation.Memory
open ZenohPicoPerf.Foundation.Signed
open ZenohPicoPerf.Foundation.Atoi
open ZenohPicoPerf.Foundation.Run
open ZenohPicoPerf.Foundation.Channel (receive)
open ZenohPicoPerf.Common.Clock

/-- `payload_size` after the option loop of z_ping_lat, from the values of
`-p` in the order given. -/
def payloadSize (values : List (List Byte)) : Word :=
  values.foldl (fun _ optarg => sizeArgument optarg) 64

/-- What the loop of z_ping_lat writes to `data` while it sends at the moments
`nows`. -/
def sendWrites (payloadSize : Nat) (nows : List Timespec) : List Access :=
  nows.flatMap fun _ => stampAccesses payloadSize

/-- What `data_handler` of z_ping_lat reads of a payload. -/
def pongReads : List Access := decodeAccesses

/-- What `data_handler` of mqtt_sub_lat reads of a payload. -/
def mqttReads (m : MqttSub.Message) : List Access :=
  if MqttSub.onTopic m then decodeAccesses else []

/-! ## The sizes of z_ping_lat -/

/-- The last value counts. -/
theorem payloadSize_concat (values : List (List Byte)) (optarg : List Byte) :
    payloadSize (values ++ [optarg]) = sizeArgument optarg := by
  rw [payloadSize, List.foldl_append, List.foldl_cons, List.foldl_nil]

theorem inBounds_sendWrites_iff {n : Nat} {nows : List Timespec} :
    InBounds n (sendWrites n nows) ↔ nows = [] ∨ 16 ≤ n := by
  induction nows with
  | nil => simp [sendWrites]
  | cons now nows ih =>
      rw [sendWrites, List.flatMap_cons, inBounds_append, ← sendWrites, ih,
        inBounds_stamp_iff]
      simp only [Nat.le_refl, true_and, List.cons_ne_nil, false_or]
      exact ⟨And.left, fun h => ⟨h, Or.inr h⟩⟩

/-- The loop stays in its buffer exactly when a stamp fits. -/
theorem forall_sendWrites_iff {n : Nat} :
    (∀ nows, InBounds n (sendWrites n nows)) ↔ 16 ≤ n := by
  constructor
  · intro h
    simpa using inBounds_sendWrites_iff.mp (h [⟨0, 0⟩])
  · intro h nows
    exact inBounds_sendWrites_iff.mpr (Or.inr h)

/-- The size that is used without `-p` is large enough. -/
theorem default_in_bounds (nows : List Timespec) :
    InBounds (payloadSize []).toNat (sendWrites (payloadSize []).toNat nows) :=
  forall_sendWrites_iff.mpr (by decide) nows

/-! ## The accesses are those of the programs -/

theorem send_data_length {n : Nat} {scenario : Option String}
    {s s' : PingPong.State} {now : Timespec}
    (h : PingPong.step n scenario s (.send now) = some s') :
    s'.data.length = s.data.length := by
  obtain ⟨data, hdata, hs'⟩ := Option.bind_eq_some_iff.mp h
  obtain rfl := Option.some.inj hs'
  exact stamp_length hdata

/-- The loop runs as long as it writes inside its buffer. -/
theorem sends_defined_iff {n : Nat} {scenario : Option String}
    {s : PingPong.State} (hs : s.data.length = n) (nows : List Timespec) :
    (∃ s', exec (PingPong.step n scenario) s (nows.map .send) = some s') ↔
      InBounds n (sendWrites n nows) := by
  induction nows generalizing s with
  | nil => simp [sendWrites]
  | cons now nows ih =>
      rw [sendWrites, List.flatMap_cons, inBounds_append, ← sendWrites,
        List.map_cons]
      constructor
      · rintro ⟨s', hs'⟩
        obtain ⟨m, hm, hrest⟩ := exec_cons_iff.mp hs'
        have hfirst := PingPong.send_defined_iff.mp ⟨m, hm⟩
        rw [hs] at hfirst
        exact ⟨hfirst, (ih ((send_data_length hm).trans hs)).mp ⟨s', hrest⟩⟩
      · rintro ⟨hfirst, hrest⟩
        have hinside : InBounds s.data.length (stampAccesses n) := by
          rw [hs]
          exact hfirst
        obtain ⟨m, hm⟩ := PingPong.send_defined_iff.mpr hinside
        obtain ⟨s', hs'⟩ := (ih ((send_data_length hm).trans hs)).mpr hrest
        exact ⟨s', exec_cons_iff.mpr ⟨m, hm, hs'⟩⟩

theorem dataHandler_defined_iff (msgsPerSecond : Word) (printed : List Line)
    (m : MqttSub.Message) :
    (∃ r, MqttSub.dataHandler msgsPerSecond printed m = some r) ↔
      InBounds m.payload.length (mqttReads m) := by
  unfold MqttSub.dataHandler mqttReads
  split
  · rw [← decode_defined_iff]
    exact exists_bind_iff fun words => ⟨_, rfl⟩
  · simp

/-- A message on the topic passes the guard, whatever length comes with it. -/
theorem onTopic_of_topic {m : MqttSub.Message}
    (h : m.topicName = MqttSub.mqttTopic) : MqttSub.onTopic m = true := by
  rw [MqttSub.onTopic, decide_eq_true_iff, h]
  exact strncmp_self (by decide) _

/-! ## The programs that run -/

/-- The loop of z_ping_lat runs with a buffer of `n` bytes, however often. -/
def SendsDefined (n : Nat) : Prop :=
  ∀ (scenario : Option String) (data : Buffer n) (nows : List Timespec), ∃ s,
    exec (PingPong.step n scenario) (PingPong.start data) (nows.map .send) =
      some s

/-- The handler of z_ping_lat takes the payload of an echo. -/
def PongDefined (pong : List Byte) : Prop :=
  ∀ (n : Nat) (scenario : Option String) (s : PingPong.State)
    (m : PingPong.Sample) (rest : List PingPong.Sample) (i : Nat)
    (stop : Timespec), m.payload = pong →
    receive s.pongs i = some (m, rest) →
    ∃ s', PingPong.step n scenario s (.deliver i stop) = some s'

/-- The handler of mqtt_sub_lat takes the message. -/
def MqttDefined (m : MqttSub.Message) : Prop :=
  ∀ (msgsPerSecond : Word) (printed : List Line),
    ∃ r, MqttSub.dataHandler msgsPerSecond printed m = some r

theorem forall_sends_iff {n : Nat} :
    SendsDefined n ↔ ∀ nows, InBounds n (sendWrites n nows) := by
  constructor
  · intro h nows
    let zeros : Buffer n := ⟨List.replicate n 0, List.length_replicate⟩
    exact (sends_defined_iff zeros.size nows).mp (h none zeros nows)
  · intro h scenario data nows
    exact (sends_defined_iff data.size nows).mpr (h nows)

theorem pong_defined_iff {pong : List Byte} :
    PongDefined pong ↔ InBounds pong.length pongReads := by
  constructor
  · intro h
    have hdeliver := h 0 none
      { data := [], sent := [], pings := [], pongs := [⟨0, pong⟩],
        printed := [] } ⟨0, pong⟩ [] 0 ⟨0, 0⟩ rfl rfl
    exact (PingPong.deliver_defined_iff rfl ⟨0, 0⟩).mp hdeliver
  · rintro h n scenario s m rest i stop rfl hm
    exact (PingPong.deliver_defined_iff hm stop).mpr h

theorem mqtt_defined_iff {m : MqttSub.Message} :
    MqttDefined m ↔ InBounds m.payload.length (mqttReads m) := by
  constructor
  · intro h
    exact (dataHandler_defined_iff 0 [] m).mp (h 0 [])
  · intro h msgsPerSecond printed
    exact (dataHandler_defined_iff msgsPerSecond printed m).mpr h

/-! ## Sizes and lengths -/

/-- **Probe accesses.**  For every non-negative value of `-p`, every received
payload and every message on the topic: the send loop of z_ping_lat writes
inside its buffer if and only if the value is at least 16, and each handler
reads inside its payload if and only if that has at least 16 bytes.  The loop
and the handlers run exactly then. -/
theorem probes_in_bounds_iff (values : List (List Byte)) (optarg : List Byte)
    (hrange : Fits 32 (atoi optarg)) (hnonneg : 0 ≤ atoi optarg)
    (pong : List Byte) (m : MqttSub.Message)
    (htopic : m.topicName = MqttSub.mqttTopic) :
    ((∀ nows, InBounds (payloadSize (values ++ [optarg])).toNat
        (sendWrites (payloadSize (values ++ [optarg])).toNat nows)) ↔
      16 ≤ atoi optarg) ∧
    (InBounds pong.length pongReads ↔ 16 ≤ pong.length) ∧
    (InBounds m.payload.length (mqttReads m) ↔ 16 ≤ m.payload.length) ∧
    (SendsDefined (payloadSize (values ++ [optarg])).toNat ↔
      16 ≤ atoi optarg) ∧
    (PongDefined pong ↔ 16 ≤ pong.length) ∧
    (MqttDefined m ↔ 16 ≤ m.payload.length) := by
  have hsize := sizeArgument_toNat hrange hnonneg
  have hsends : (∀ nows, InBounds (payloadSize (values ++ [optarg])).toNat
      (sendWrites (payloadSize (values ++ [optarg])).toNat nows)) ↔
      16 ≤ atoi optarg := by
    rw [payloadSize_concat, forall_sendWrites_iff]
    omega
  have hpong : InBounds pong.length pongReads ↔ 16 ≤ pong.length :=
    inBounds_decode_iff
  have hmqtt : InBounds m.payload.length (mqttReads m) ↔
      16 ≤ m.payload.length := by
    rw [mqttReads, if_pos (onTopic_of_topic htopic)]
    exact inBounds_decode_iff
  exact ⟨hsends, hpong, hmqtt, forall_sends_iff.trans hsends,
    pong_defined_iff.trans hpong, mqtt_defined_iff.trans hmqtt⟩

/-- A size of 64, an echo of 64 bytes and a stamp on the topic. -/
theorem probes_in_bounds_default :
    ((∀ nows, InBounds (payloadSize [literal "64"]).toNat
        (sendWrites (payloadSize [literal "64"]).toNat nows)) ↔
      16 ≤ atoi (literal "64")) ∧
    (InBounds 64 pongReads ↔ 16 ≤ 64) ∧
    (InBounds 16 (mqttReads ⟨MqttSub.mqttTopic, 9, stampBytes 1 2, ⟨3, 4⟩⟩) ↔
      16 ≤ 16) ∧
    (SendsDefined (payloadSize [literal "64"]).toNat ↔
      16 ≤ atoi (literal "64")) ∧
    (PongDefined (List.replicate 64 0) ↔ 16 ≤ 64) ∧
    (MqttDefined ⟨MqttSub.mqttTopic, 9, stampBytes 1 2, ⟨3, 4⟩⟩ ↔ 16 ≤ 16) :=
  probes_in_bounds_iff [] (literal "64") ⟨by decide, by decide⟩ (by decide)
    (List.replicate 64 0) ⟨MqttSub.mqttTopic, 9, stampBytes 1 2, ⟨3, 4⟩⟩ rfl

/-- With `-p 8` the second word is stored behind the buffer; an empty echo and
a message one byte short are read behind their ends. -/
theorem probes_out_of_bounds :
    ¬InBounds (payloadSize [literal "8"]).toNat
        (sendWrites (payloadSize [literal "8"]).toNat [⟨1, 2⟩]) ∧
      PingPong.step 8 none (PingPong.start ⟨List.replicate 8 0, rfl⟩)
        (.send ⟨1, 2⟩) = none ∧
      ¬InBounds 0 pongReads ∧
      ¬InBounds 15 (mqttReads
        ⟨MqttSub.mqttTopic, 9, List.replicate 15 0, ⟨3, 4⟩⟩) ∧
      MqttSub.dataHandler 1 []
        ⟨MqttSub.mqttTopic, 9, List.replicate 15 0, ⟨3, 4⟩⟩ = none := by
  decide

end ZenohPicoPerf.Latency.ProbeBounds
