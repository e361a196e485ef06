import ZenohPicoPerf.Throughput.Receivers
import ZenohPicoPerf.Latency.MqttSub

/-!
# The topic guard of mqtt_sub_thr and mqtt_sub_lat

Both handlers begin with `strncmp(topicName, MQTT_TOPIC, topicLen) != 0`.  The
length is that of the received topic, and the client library passes `0` for a
topic without NUL bytes, so the guard lets every prefix of the configured
topic through, and with length `0` everything.

## Main results

* `accepts_iff` — what the guard accepts.
* `mqtt_guard_iff` — which messages both handlers treat as they should.
-/

namespace ZenohPicoPerf.Mqtt

open ZenohPicoPerf.Foundation.Memory
open ZenohPicoPerf.Foundation.Signed
open ZenohPicoPerf.Common.Clock
open ZenohPicoPerf.Throughput

/-- The comparison in front of both handlers. -/
def accepts (topic topicName : List Byte) (topicLen : CInt) : Bool :=
  strncmp topicName topic topicLen.toWord.toNat = 0

/-- A string that ends at its terminator. -/
def NoNul (s : List Byte) : Prop := ∀ b ∈ s, b ≠ 0

instance (s : List Byte) : Decidable (NoNul s) :=
  inferInstanceAs (Decidable (∀ b ∈ s, b ≠ 0))

/-- The length that is passed with a topic: its own, or `0` for a topic
without NUL bytes. -/
def LengthOrZero (topicName : List Byte) (topicLen : CInt) : Prop :=
  topicLen.toInt = topicName.length ∨ topicLen = 0

instance (topicName : List Byte) (topicLen : CInt) :
    Decidable (LengthOrZero topicName topicLen) :=
  inferInstanceAs (Decidable (_ ∨ _))

/-- The guard accepts every topic of length `0` and every prefix of the
configured topic. -/
theorem accepts_iff {topic topicName : List Byte} {topicLen : CInt}
    (htopic : NoNul topic) (hname : NoNul topicName)
    (hlen : LengthOrZero topicName topicLen) :
    accepts topic topicName topicLen = true ↔
      topicLen = 0 ∨ topicName <+: topic := by
  rw [accepts, decide_eq_true_iff, strncmp_eq_zero_iff _ hname htopic]
  rcases hlen with hlen | rfl
  · have hnonneg : 0 ≤ topicLen.toInt := by omega
    have hnat : topicLen.toWord.toNat = topicName.length := by
      rw [CInt.toWord_toNat hnonneg]
      rw [toInt_of_nonneg hnonneg] at hlen
      exact Int.ofNat_inj.mp hlen
    rw [hnat, List.take_length, List.prefix_iff_eq_take]
    constructor
    · exact Or.inr
    · rintro (rfl | hprefix)
      · have hempty : topicName = [] := by
          rw [← List.length_eq_zero_iff]
          exact hnat.symm
        simp [hempty]
      · exact hprefix
  · simp [CInt.toWord]

/-- A guard that chooses between two different outcomes is right exactly when
its condition is. -/
theorem guard_eq_iff {α : Type*} {measured ignored : α}
    (hne : measured ≠ ignored) (p q : Prop) [Decidable p] [Decidable q] :
    ((if p then measured else ignored) = if q then measured else ignored) ↔
      (p ↔ q) := by
  by_cases hp : p <;> by_cases hq : q <;> simp [hp, hq, hne, hne.symm]

/-- The guard decides right between the configured topic and the others. -/
theorem accepts_exact_iff {topic topicName : List Byte} {topicLen : CInt}
    (htopic : NoNul topic) (hname : NoNul topicName)
    (hlen : LengthOrZero topicName topicLen) :
    (accepts topic topicName topicLen = true ↔ topicName = topic) ↔
      topicName = topic ∨ topicLen ≠ 0 ∧ ¬topicName <+: topic := by
  rw [accepts_iff htopic hname hlen]
  by_cases hsame : topicName = topic
  · simp [hsame]
  · simp [hsame, not_or]

/-- Counting is visible: every tick of the window branch moves `count`. -/
theorem globals_measure_ne (N : Nat) (l : Throughput.Labels) (g : Globals)
    (now : Timeval) : g.measure N l now ≠ g := by
  intro hsame
  have hcount : (g.window.tick N now).1.count = g.window.count := by
    rw [← measure_window N l g now, hsame]
  by_cases h0 : g.window.count = 0
  · rw [tick_of_closed now h0, h0] at hcount
    cases hcount
  · by_cases hlt : g.window.count < N
    · rw [tick_of_open now h0 hlt] at hcount
      exact absurd hcount (Nat.succ_ne_self _)
    · rw [tick_of_full now h0 hlt] at hcount
      exact h0 hcount.symm

/-- mqtt_sub_thr counts the message on its topic and leaves everything alone
on any other. -/
def CountsOnTopic (N : Nat) (msgSize : CInt) (m : MqttSubThr.Message) : Prop :=
  ∀ g, MqttSubThr.dataHandler N msgSize g m =
    if m.topicName = MqttSubThr.mqttTopic then
      g.measure N (MqttSubThr.labels msgSize) m.now
    else g

/-- mqtt_sub_lat measures the message on its topic and prints nothing on any
other. -/
def MeasuresOnTopic (msgsPerSecond : Word) (m : Latency.MqttSub.Message) :
    Prop :=
  ∀ printed, Latency.MqttSub.dataHandler msgsPerSecond printed m =
    if m.topicName = Latency.MqttSub.mqttTopic then
      Latency.MqttSub.measure msgsPerSecond printed m
    else some printed

theorem counts_iff (N : Nat) (msgSize : CInt) (m : MqttSubThr.Message) :
    CountsOnTopic N msgSize m ↔
      (accepts MqttSubThr.mqttTopic m.topicName m.topicLen = true ↔
        m.topicName = MqttSubThr.mqttTopic) := by
  have hguard := fun g => guard_eq_iff
    (globals_measure_ne N (MqttSubThr.labels msgSize) g m.now)
    (accepts MqttSubThr.mqttTopic m.topicName m.topicLen = true)
    (m.topicName = MqttSubThr.mqttTopic)
  constructor
  · intro h
    exact (hguard ⟨⟨0, ⟨0, 0⟩, ⟨0, 0⟩⟩, []⟩).mp (h _)
  · intro h g
    exact (hguard g).mpr h

theorem measures_iff (msgsPerSecond : Word) (m : Latency.MqttSub.Message) :
    MeasuresOnTopic msgsPerSecond m ↔
      (accepts Latency.MqttSub.mqttTopic m.topicName m.topicLen = true ↔
        m.topicName = Latency.MqttSub.mqttTopic) := by
  have hguard := fun printed => guard_eq_iff
    (Latency.MqttSub.measure_ne msgsPerSecond printed m)
    (accepts Latency.MqttSub.mqttTopic m.topicName m.topicLen = true)
    (m.topicName = Latency.MqttSub.mqttTopic)
  constructor
  · intro h
    exact (hguard []).mp (h _)
  · intro h printed
    exact (hguard printed).mpr h

/-- **The topic guard.**  Each handler counts or measures exactly the messages
of its topic if and only if the received topic is that topic, or it comes with
its own length and is no prefix of it. -/
theorem mqtt_guard_iff (N : Nat) (msgSize : CInt) (msgsPerSecond : Word)
    (topicName : List Byte) (topicLen : CInt) (hname : NoNul topicName)
    (hlen : LengthOrZero topicName topicLen) (payload : List Byte)
    (now : Timeval) :
    (CountsOnTopic N msgSize ⟨topicName, topicLen, now⟩ ↔
      topicName = MqttSubThr.mqttTopic ∨
        topicLen ≠ 0 ∧ ¬topicName <+: MqttSubThr.mqttTopic) ∧
    (MeasuresOnTopic msgsPerSecond ⟨topicName, topicLen, payload, now⟩ ↔
      topicName = Latency.MqttSub.mqttTopic ∨
        topicLen ≠ 0 ∧ ¬topicName <+: Latency.MqttSub.mqttTopic) := by
  have hthr : NoNul MqttSubThr.mqttTopic := by decide
  have hlat : NoNul Latency.MqttSub.mqttTopic := by decide
  constructor
  · exact (counts_iff N msgSize _).trans (accepts_exact_iff hthr hname hlen)
  · exact (measures_iff msgsPerSecond _).trans
      (accepts_exact_iff hlat hname hlen)

theorem mqtt_guard_other :
    (CountsOnTopic 100000 8 ⟨literal "/test/other", 11, ⟨1, 0⟩⟩ ↔
      literal "/test/other" = MqttSubThr.mqttTopic ∨
        (11 : CInt) ≠ 0 ∧
          ¬literal "/test/other" <+: MqttSubThr.mqttTopic) ∧
    (MeasuresOnTopic 10 ⟨literal "/test/other", 11, [], ⟨1, 0⟩⟩ ↔
      literal "/test/other" = Latency.MqttSub.mqttTopic ∨
        (11 : CInt) ≠ 0 ∧
          ¬literal "/test/other" <+: Latency.MqttSub.mqttTopic) :=
  mqtt_guard_iff 100000 8 10 (literal "/test/other") 11 (by decide)
    (by decide) [] ⟨1, 0⟩

/-- A foreign topic that comes with length `0` is counted, and a proper prefix
of the topic is measured. -/
theorem mqtt_guard_prefix :
    ¬CountsOnTopic 100000 8 ⟨literal "/other", 0, ⟨1, 0⟩⟩ ∧
      ¬MeasuresOnTopic 10
        ⟨literal "/test", 5, List.replicate 16 0, ⟨1, 0⟩⟩ := by
  constructor
  · intro h
    have hcount := congrArg (fun g => g.window.count)
      (h ⟨⟨0, ⟨0, 0⟩, ⟨0, 0⟩⟩, []⟩)
    exact absurd hcount (by decide)
  · intro h
    exact absurd (h []) (by decide)

end ZenohPicoPerf.Mqtt
