import ZenohPicoPerf.Throughput.Window

/-!
# The five guarded throughput programs

Each program runs the window branch on the events that pass its guard and
ignores the others: mqtt_sub_thr checks the topic, z_get_thr that the reply is
ok, opcua_sub_thr the status and type of the value read, opcua_pub_thr the
status of its write; ddsxrce_sub_thr has no guard.  `Program` collects them,
so that a result about the shared behaviour is one theorem about all five.

## Main results

* `Program.run_printed` — the reports are the ends of consecutive blocks of
  accepted readings.
* `Program.run_count_le` — the counter never exceeds `N`, so it cannot wrap.
* `Program.Counted.accounts` — no accepted event is left out or counted twice.
* `throughput_windows` — number, edges and disjointness of the windows, and
  their independence of rejected events.
-/

namespace ZenohPicoPerf.Throughput

open ZenohPicoPerf.Foundation.Memory
open ZenohPicoPerf.Foundation.Blocks
open ZenohPicoPerf.Common.Clock

namespace MqttSubThr

def mqttTopic : List Byte := literal "/test/thr"

/-- A delivered message: its topic, the length passed with it, and the clock
reading available while it is handled. -/
structure Message where
  topicName : List Byte
  topicLen : CInt
  now : Timeval
deriving DecidableEq, Repr

def labels (msgSize : CInt) : Labels :=
  { layer := "mqtt", name := "subscriber", test := "throughput",
    scenario := "mpub-broker-msub", msgSize := msgSize }

/-- The comparison is bounded by the received length. -/
def onTopic (m : Message) : Bool :=
  strncmp m.topicName mqttTopic m.topicLen.toWord.toNat = 0

def dataHandler (N : Nat) (msgSize : CInt) (g : Globals) (m : Message) :
    Globals :=
  if onTopic m then g.measure N (labels msgSize) m.now else g

end MqttSubThr

namespace DdsxrceSubThr

def labels (msgSize : CInt) : Labels :=
  { layer := "XRCE-DDS", name := "publisher", test := "throughput",
    scenario := "dpub-dagent-dsub", msgSize := msgSize }

/-- The callback reads none of its arguments. -/
def onTopic (N : Nat) (msgSize : CInt) (g : Globals) (now : Timeval) :
    Globals :=
  g.measure N (labels msgSize) now

end DdsxrceSubThr

namespace ZGetThr

/-- A reply: the result of `z_reply_is_ok` on it and a clock reading. -/
structure Reply where
  isOk : Bool
  now : Timeval
deriving DecidableEq, Repr

def labels (scenario : String) (msgSize : CInt) : Labels :=
  { layer := "zenoh-pico", name := "get", test := "throughput",
    scenario := scenario, msgSize := msgSize }

def replyHandler (N : Nat) (scenario : String) (msgSize : CInt) (g : Globals)
    (r : Reply) : Globals :=
  if r.isOk then g.measure N (labels scenario msgSize) r.now else g

end ZGetThr

namespace OpcuaSubThr

/-- One pass of the loop: whether the read returned `UA_STATUSCODE_GOOD`,
whether the value is a scalar string, and a clock reading. -/
structure Poll where
  good : Bool
  hasScalarType : Bool
  now : Timeval
deriving DecidableEq, Repr

/-- The program never sets `msg_size`. -/
def labels : Labels :=
  { layer := "opc-ua", name := "subscriber", test := "throughput",
    scenario := "copc-sopc-copc", msgSize := 0 }

def loopBody (N : Nat) (g : Globals) (p : Poll) : Globals :=
  if p.good && p.hasScalarType then g.measure N labels p.now else g

end OpcuaSubThr

namespace OpcuaPubThr

/-- One pass of the loop: whether the write returned `UA_STATUSCODE_GOOD`,
and a clock reading. -/
structure Write where
  good : Bool
  now : Timeval
deriving DecidableEq, Repr

def labels (msgSize : CInt) : Labels :=
  { layer := "opc-ua", name := "publisher", test := "throughput",
    scenario := "copc-sopc-copc", msgSize := msgSize }

def loopBody (N : Nat) (msgSize : CInt) (g : Globals) (w : Write) : Globals :=
  if w.good then g.measure N (labels msgSize) w.now else g

end OpcuaPubThr

/-! ## The family -/

/-- The programs with their command-line arguments. -/
inductive Program where
  | mqttSubThr (msgSize : CInt)
  | ddsxrceSubThr (msgSize : CInt)
  | zGetThr (scenario : String) (msgSize : CInt)
  | opcuaSubThr
  | opcuaPubThr (msgSize : CInt)
deriving DecidableEq, Repr

namespace Program

def Event : Program → Type
  | mqttSubThr _ => MqttSubThr.Message
  | ddsxrceSubThr _ => Timeval
  | zGetThr _ _ => ZGetThr.Reply
  | opcuaSubThr => OpcuaSubThr.Poll
  | opcuaPubThr _ => OpcuaPubThr.Write

/-- What the program does with one event. -/
def handle (N : Nat) : (p : Program) → Globals → p.Event → Globals
  | mqttSubThr msgSize => MqttSubThr.dataHandler N msgSize
  | ddsxrceSubThr msgSize => DdsxrceSubThr.onTopic N msgSize
  | zGetThr scenario msgSize => ZGetThr.replyHandler N scenario msgSize
  | opcuaSubThr => OpcuaSubThr.loopBody N
  | opcuaPubThr msgSize => OpcuaPubThr.loopBody N msgSize

/-- The guard of the program. -/
def accepts : (p : Program) → p.Event → Bool
  | mqttSubThr _ => MqttSubThr.onTopic
  | ddsxrceSubThr _ => fun _ => true
  | zGetThr _ _ => ZGetThr.Reply.isOk
  | opcuaSubThr => fun p => p.good && p.hasScalarType
  | opcuaPubThr _ => OpcuaPubThr.Write.good

def clock : (p : Program) → p.Event → Timeval
  | mqttSubThr _ => MqttSubThr.Message.now
  | ddsxrceSubThr _ => id
  | zGetThr _ _ => ZGetThr.Reply.now
  | opcuaSubThr => OpcuaSubThr.Poll.now
  | opcuaPubThr _ => OpcuaPubThr.Write.now

def labels : Program → Labels
  | mqttSubThr msgSize => MqttSubThr.labels msgSize
  | ddsxrceSubThr msgSize => DdsxrceSubThr.labels msgSize
  | zGetThr scenario msgSize => ZGetThr.labels scenario msgSize
  | opcuaSubThr => OpcuaSubThr.labels
  | opcuaPubThr msgSize => OpcuaPubThr.labels msgSize

/-- Handle a sequence of events. -/
def run (p : Program) (N : Nat) (g : Globals) (evs : List p.Event) :
    Globals :=
  evs.foldl (p.handle N) g

/-- The clock readings of the accepted events, in order. -/
def accepted (p : Program) (evs : List p.Event) : List Timeval :=
  (evs.filter p.accepts).map p.clock

/-- Every program is the window branch behind its guard. -/
theorem handle_eq (p : Program) (N : Nat) (g : Globals) (e : p.Event) :
    p.handle N g e =
      if p.accepts e then g.measure N p.labels (p.clock e) else g := by
  cases p <;> rfl

/-- Rejected events leave no trace in a run. -/
theorem run_eq_accepted (p : Program) (N : Nat) (g : Globals)
    (evs : List p.Event) :
    p.run N g evs = (p.accepted evs).foldl (Globals.measure N p.labels) g := by
  induction evs generalizing g with
  | nil => rfl
  | cons e evs ih =>
      have htail := ih (p.handle N g e)
      rw [handle_eq] at htail
      by_cases hacc : p.accepts e = true
      · simpa [run, accepted, handle_eq, hacc] using htail
      · simpa [run, accepted, handle_eq, hacc] using htail

theorem handle_count_le (p : Program) {N : Nat} (hN : 1 ≤ N) {g : Globals}
    (hg : g.window.count ≤ N) (e : p.Event) :
    (p.handle N g e).window.count ≤ N := by
  rw [handle_eq]
  by_cases hacc : p.accepts e = true
  · rw [if_pos hacc, measure_window]
    exact tick_count_le hN g.window (p.clock e)
  · rw [if_neg hacc]
    exact hg

/-- The counter stays at `N` or below in every run. -/
theorem run_count_le (p : Program) {N : Nat} (hN : 1 ≤ N) {g : Globals}
    (hg : g.window.count ≤ N) (evs : List p.Event) :
    (p.run N g evs).window.count ≤ N := by
  induction evs generalizing g with
  | nil => exact hg
  | cons e evs ih => exact ih (p.handle_count_le hN hg e)

end Program

/-! ## The reports of a run -/

/-- The state after the readings `xs`, started with an empty output. -/
structure Measured (N : Nat) (l : Labels) (xs : List Timeval) (g : Globals) :
    Prop where
  window : Counts N xs g.window
  printed : g.printed =
    (blockEnds N xs).map fun p => printStats N l p.1 p.2

theorem measured_measure {N : Nat} (hN : 1 ≤ N) {l : Labels}
    {xs : List Timeval} {g : Globals} (h : Measured N l xs g)
    (now : Timeval) : Measured N l (xs ++ [now]) (g.measure N l now) := by
  refine { window := ?_, printed := ?_ }
  · rw [measure_window]
    exact tick_counts hN h.window now
  · rw [measure_printed, tick_blockEnds hN h.window now, List.map_append,
      h.printed]

/-- Started with `count = 0`, a sequence of readings is reported block by
block. -/
theorem measured_foldl {N : Nat} (hN : 1 ≤ N) (l : Labels)
    (w : Window) (hw : w.count = 0) (xs : List Timeval) :
    Measured N l xs
      (xs.foldl (Globals.measure N l) { window := w, printed := [] }) := by
  induction xs using List.reverseRecOn with
  | nil =>
      exact
        { window := counts_nil N w hw
          printed := by simp }
  | append_singleton xs now ih =>
      rw [List.foldl_append]
      exact measured_measure hN ih now

/-- The reports of a program are the ends of the consecutive blocks of its
accepted readings. -/
theorem Program.run_printed (p : Program) {N : Nat} (hN : 1 ≤ N)
    (w : Window) (hw : w.count = 0) (evs : List p.Event) :
    (p.run N { window := w, printed := [] } evs).printed =
      (blockEnds N (p.accepted evs)).map fun q =>
        printStats N p.labels q.1 q.2 := by
  rw [p.run_eq_accepted]
  exact (measured_foldl hN p.labels w hw (p.accepted evs)).printed

/-- `g` is where a run on `k` accepted events leads, started with `count = 0`
and an empty output. -/
def Program.Counted (p : Program) (N : Nat) (start stop : Timeval) (k : Nat)
    (g : Globals) : Prop :=
  ∃ evs : List p.Event, (p.accepted evs).length = k ∧
    g = p.run N ⟨⟨0, start, stop⟩, []⟩ evs

theorem Program.counted_zero (p : Program) (N : Nat) (start stop : Timeval) :
    p.Counted N start stop 0 ⟨⟨0, start, stop⟩, []⟩ :=
  ⟨[], rfl, rfl⟩

/-- One more event, if the guard passes it. -/
theorem Program.Counted.handle {p : Program} {N k : Nat}
    {start stop : Timeval} {g : Globals} (h : p.Counted N start stop k g)
    (e : p.Event) :
    p.Counted N start stop (k + if p.accepts e then 1 else 0)
      (p.handle N g e) := by
  obtain ⟨evs, hk, rfl⟩ := h
  refine ⟨evs ++ [e], ?_, ?_⟩
  · rw [← hk, Program.accepted, List.filter_append, List.map_append,
      List.length_append]
    by_cases hacc : p.accepts e = true <;> simp [hacc, Program.accepted]
  · simp [Program.run]

/-- Every accepted event is in a report or in the open window. -/
theorem Program.Counted.accounts {p : Program} {N k : Nat}
    {start stop : Timeval} {g : Globals} (hN : 1 ≤ N)
    (h : p.Counted N start stop k g) :
    g.printed.length * (N + 1) + g.window.count = k := by
  obtain ⟨evs, rfl, rfl⟩ := h
  have hg := measured_foldl hN p.labels ⟨0, start, stop⟩ rfl (p.accepted evs)
  rw [p.run_eq_accepted, hg.printed, List.length_map, blockEnds_length,
    hg.window.count]
  exact Nat.div_add_mod' _ _

/-- Accepted event number `i` lies in window number `k`. -/
def InWindow (N k i : Nat) : Prop :=
  k * (N + 1) ≤ i ∧ i ≤ k * (N + 1) + N

theorem inWindow_unique {N i j k : Nat} (hj : InWindow N j i)
    (hk : InWindow N k i) : j = k := by
  have hdiv : ∀ m, InWindow N m i → i / (N + 1) = m := by
    intro m hm
    obtain ⟨hlo, hhi⟩ := hm
    rw [Nat.div_eq_iff (by omega)]
    have hsucc : (m + 1) * (N + 1) = m * (N + 1) + (N + 1) :=
      Nat.succ_mul m (N + 1)
    omega
  exact (hdiv j hj).symm.trans (hdiv k hk)

/-- **The throughput windows.**  Started with `count = 0`, a program prints
one report for each complete block of `N + 1` accepted events.  Report `k`
runs from accepted event `k * (N + 1)` to accepted event `k * (N + 1) + N`,
and the numerator of its rate is the number of intervals between the two; no
accepted event lies in two windows; rejected events have no influence. -/
theorem throughput_windows (p : Program) (N : Nat) (hN : 1 ≤ N)
    (start stop : Timeval) (evs : List p.Event) :
    let readings := p.accepted evs
    let out := fun evs : List p.Event =>
      (p.run N ⟨⟨0, start, stop⟩, []⟩ evs).printed
    (out evs).length = readings.length / (N + 1) ∧
    (∀ k r, (out evs)[k]? = some r →
      readings[k * (N + 1)]? = some r.start ∧
      readings[k * (N + 1) + N]? = some r.stop ∧
      r.num = k * (N + 1) + N - k * (N + 1)) ∧
    (∀ i j k, InWindow N j i → InWindow N k i → j = k) ∧
    (∀ evs' : List p.Event,
      evs'.filter p.accepts = evs.filter p.accepts → out evs' = out evs) := by
  intro readings out
  have hout : ∀ evs, out evs =
      (blockEnds N (p.accepted evs)).map fun q =>
        printStats N p.labels q.1 q.2 :=
    fun evs => p.run_printed hN ⟨0, start, stop⟩ rfl evs
  refine ⟨?_, ?_, fun i j k => inWindow_unique, ?_⟩
  · rw [hout, List.length_map, blockEnds_length]
  · intro k r hr
    rw [hout, List.getElem?_map, Option.map_eq_some_iff] at hr
    obtain ⟨q, hq, rfl⟩ := hr
    obtain ⟨hfirst, hlast⟩ := blockEnds_getElem? hq
    exact ⟨hfirst, hlast, by simp [printStats]⟩
  · intro evs' hfilter
    rw [hout, hout, Program.accepted, Program.accepted, hfilter]

/-- Two windows of two intervals, with a rejected reply inside each. -/
theorem throughput_windows_two :
    let evs : List (Program.zGetThr "peer" 8).Event :=
      [⟨true, ⟨1, 0⟩⟩, ⟨false, ⟨2, 0⟩⟩, ⟨true, ⟨3, 0⟩⟩, ⟨true, ⟨4, 0⟩⟩,
        ⟨true, ⟨5, 0⟩⟩, ⟨true, ⟨6, 0⟩⟩, ⟨false, ⟨7, 0⟩⟩, ⟨true, ⟨8, 0⟩⟩]
    ((Program.zGetThr "peer" 8).run 2 ⟨⟨0, ⟨0, 0⟩, ⟨0, 0⟩⟩, []⟩
      evs).printed.length = 2 := by
  intro evs
  have hreadings : ((Program.zGetThr "peer" 8).accepted evs).length = 6 := by
    rfl
  have h := (throughput_windows (.zGetThr "peer" 8) 2 (by decide)
    ⟨0, 0⟩ ⟨0, 0⟩ evs).1
  rw [hreadings] at h
  exact h

end ZenohPicoPerf.Throughput
