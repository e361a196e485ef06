import ZenohPicoPerf.Latency.Stamp

/-!
# mqtt_sub_lat: the message handler

The handler compares the topic, decodes the stamp at the start of the payload
and prints one line.  It looks at no length but that of the topic.
-/

namespace ZenohPicoPerf.Latency.MqttSub

open ZenohPicoPerf.Foundation.Memory
open ZenohPicoPerf.Common.Clock

def mqttTopic : List Byte := literal "/test/lat"

def labels (msgsPerSecond : Word) : Labels :=
  { layer := "mqtt", name := "subscriber", test := "latency",
    scenario := "mpub-broker-msub", msgsPerSecond := msgsPerSecond }

/-- A delivered message: its topic, the length passed with it, its payload,
and the clock reading available while it is handled. -/
structure Message where
  topicName : List Byte
  topicLen : CInt
  payload : List Byte
  stop : Timeval
deriving DecidableEq, Repr

/-- The comparison is bounded by the received length. -/
def onTopic (m : Message) : Bool :=
  strncmp m.topicName mqttTopic m.topicLen.toWord.toNat = 0

/-- The statements behind the guard, on the lines printed so far. -/
def measure (msgsPerSecond : Word) (printed : List Line) (m : Message) :
    Option (List Line) := do
  let (sec, usec) ← decode m.payload
  some (printed ++ [{ labels := labels msgsPerSecond, sec := sec,
                      usec := usec, stop := m.stop }])

def dataHandler (msgsPerSecond : Word) (printed : List Line) (m : Message) :
    Option (List Line) :=
  if onTopic m then measure msgsPerSecond printed m else some printed

/-- Measuring is visible: it prints a line or leaves the payload. -/
theorem measure_ne (msgsPerSecond : Word) (printed : List Line)
    (m : Message) : measure msgsPerSecond printed m ≠ some printed := by
  unfold measure
  cases decode m.payload <;> simp

end ZenohPicoPerf.Latency.MqttSub
