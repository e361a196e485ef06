import ZenohPicoPerf.Throughput.DdsxrcePub
import ZenohPicoPerf.Throughput.Receivers
import ZenohPicoPerf.Foundation.PubSub

/-!
# ddsxrce_pub_thr and ddsxrce_sub_thr together

Any number of ddsxrce_pub_thr processes, each with its own payload size, write
samples to a best-effort stream; an agent forwards them to one
ddsxrce_sub_thr, which counts them.  It declares a deserialiser with a buffer
of 8192 bytes, but its callback does not call it.

## Main results

* `thr_round_trip` — the deserialiser gives back what the publisher
  serialised, exactly up to the size of its buffer.
* `dds_thr_accounts` — the samples are in the reports, in the open window, in
  flight or lost, and hold nothing but the serialised string.
-/

namespace ZenohPicoPerf.Throughput.DdsxrceSystem

open ZenohPicoPerf.Foundation
open ZenohPicoPerf.Foundation.Memory
open ZenohPicoPerf.Foundation.Run
open ZenohPicoPerf.Foundation.Signed
open ZenohPicoPerf.Common.Clock
open ZenohPicoPerf.Common.MicroCdr
open ZenohPicoPerf.Throughput.DdsxrcePub

/-! ## The deserialiser of the subscriber -/

/-- `char buf[8192]` -/
def bufSize : Word := 8192

/-- `MyDataType_deserialize_topic` -/
def deserializeTopic (ucdrDeserializeString :
      UcdrReader → List Byte → Word → UcdrReader × List Byte)
    (reader : UcdrReader) (data : MyDataType) : Bool × MyDataType :=
  let read := ucdrDeserializeString reader data.buf bufSize
  (!read.1.error, { buf := read.2 })

/-- The C string in the buffer of `main`. -/
theorem cString_topic (n : Nat) :
    cString (List.replicate n 1 ++ [0]) = List.replicate n 1 := by
  have hones : ∀ b ∈ List.replicate n (1 : Byte), b ≠ 0 := by
    intro b hb
    rw [List.eq_of_mem_replicate hb]
    decide
  exact cString_terminated [] hones

/-- **Round trip.**  For every message size and stream offset, the subscriber's
deserialiser, applied to the bytes that the publisher serialised, succeeds if
and only if string and terminator fit in its 8192 bytes, and then its buffer
holds the publisher's string. -/
theorem thr_round_trip
    (ucdrSerializeString : UcdrBuffer → List Byte → UcdrBuffer)
    (hwrites : WritesString ucdrSerializeString)
    (ucdrDeserializeString :
      UcdrReader → List Byte → Word → UcdrReader × List Byte)
    (hreads : ReadsString ucdrDeserializeString) (msgSize : CInt)
    (hnonneg : 0 ≤ msgSize.toInt) (hmax : msgSize.toInt < 2 ^ 31 - 1)
    (fresh : Buffer (msgSize + 1).toWord.toNat) (offset : Word)
    (buf : Buffer bufSize.toNat) (rest : List Byte) :
    ∃ data writer, topic msgSize fresh = some data ∧
      serializeTopic ucdrSerializeString (UcdrBuffer.startAt offset) data =
        (writer, true) ∧
      let read := deserializeTopic ucdrDeserializeString
        { offset := offset, unread := writer.written ++ rest, error := false }
        { buf := buf.bytes }
      (read.1 = true ↔ msgSize.toInt + 1 ≤ 8192) ∧
      (read.1 = true → cString read.2.buf = cString data.buf) := by
  have hlt := CInt.toNat_lt_of_nonneg hnonneg
  have htoInt := toInt_of_nonneg hnonneg
  obtain ⟨pad, hpad, hwritten, herror⟩ := hwrites (UcdrBuffer.startAt offset)
    (List.replicate msgSize.toNat 1 ++ [0]) rfl (by simp)
  refine ⟨_, ucdrSerializeString (UcdrBuffer.startAt offset)
    (List.replicate msgSize.toNat 1 ++ [0]), topic_eq hnonneg hmax fresh,
    ?_, ?_⟩
  · rw [serializeTopic, herror]
    rfl
  · have hbytes : (ucdrSerializeString (UcdrBuffer.startAt offset)
        (List.replicate msgSize.toNat 1 ++ [0])).written ++ rest =
        pad ++
          (stringBytes (List.replicate msgSize.toNat 1 ++ [0]) ++ rest) := by
      rw [hwritten, UcdrBuffer.startAt, List.nil_append, List.append_assoc]
    have hlength : (cString (List.replicate msgSize.toNat 1 ++ [0])).length =
        msgSize.toNat := strlen_topic _
    obtain ⟨hok, hread⟩ := hreads
      { offset := offset
        unread := _
        error := false } buf.bytes bufSize pad _ rest rfl hbytes hpad
      (by rw [hlength]; omega) (by rw [buf.size])
    have hsize : bufSize.toNat = 8192 := rfl
    rw [hlength] at hok hread
    simp only [deserializeTopic, Bool.not_eq_true', hok]
    refine ⟨by rw [hsize]; omega, fun hfits => ?_⟩
    rw [hread hfits, cString_topic, cString_terminated]
    intro b hb
    rw [List.eq_of_mem_replicate hb]
    decide

/-- Three characters, read behind five bytes of another submessage. -/
theorem thr_round_trip_three :
    ∃ data writer, topic 3 ⟨[9, 9, 9, 9], rfl⟩ = some data ∧
      serializeTopic serializeString (UcdrBuffer.startAt 5) data =
        (writer, true) ∧
      let read := deserializeTopic deserializeString
        { offset := 5, unread := writer.written ++ [7], error := false }
        { buf := List.replicate 8192 0 }
      (read.1 = true ↔ (3 : CInt).toInt + 1 ≤ 8192) ∧
      (read.1 = true → cString read.2.buf = cString data.buf) :=
  thr_round_trip serializeString writesString_serializeString
    deserializeString readsString_deserializeString 3 (by decide) (by decide)
    ⟨[9, 9, 9, 9], rfl⟩ 5 ⟨List.replicate 8192 0, List.length_replicate⟩ [7]

/-! ## The publisher -/

inductive PubPc where
  | running
  | left
deriving DecidableEq, Repr

/-- ddsxrce_pub_thr behind its set-up; `sent` counts the samples that it
wrote. -/
structure Publisher where
  msgSize : CInt
  pc : PubPc
  topic : MyDataType
  sent : Nat
deriving DecidableEq, Repr

/-- The argument, and the memory that `malloc` returns. -/
structure Arguments where
  msgSize : CInt
  fresh : Buffer (msgSize + 1).toWord.toNat
deriving DecidableEq, Repr

/-- For a negative size there is no memory that `malloc` could return, and for
the greatest one `msg_size + 1` overflows. -/
def startPublisher (a : Arguments) : Option Publisher :=
  if 0 ≤ a.msgSize.toInt ∧ a.msgSize.toInt < 2 ^ 31 - 1 then do
    let topic ← topic a.msgSize a.fresh
    some { msgSize := a.msgSize, pc := .running, topic := topic, sent := 0 }
  else none

/-- One pass of the loop: the stream had room for the size asked for or not.
`stale` is what the stream holds behind the bytes that are written,
`connected` the result of `uxr_run_session_time`. -/
inductive PubEvent where
  | write (stale : List Byte) (connected : Bool)
  | refused (connected : Bool)
deriving DecidableEq, Repr

section Programs

variable (ucdrAlignment : Word → Word → Word)
  (ucdrSerializeString : UcdrBuffer → List Byte → UcdrBuffer) (N : Nat)
  (msgSize : CInt)

/-- A refused stream has its error flag set, and nothing is written to it. -/
def publish (p : Publisher) :
    PubEvent → Option (Publisher × Option (List Byte))
  | .write stale connected =>
      if p.pc = .running then
        let topicSize := sizeOfTopic ucdrAlignment p.msgSize p.topic 0
        let ub := (serializeTopic ucdrSerializeString (UcdrBuffer.startAt 0)
          p.topic).1
        if ub.written.length + stale.length = topicSize.toNat then
          some ({ p with
                  pc := if connected then .running else .left
                  sent := p.sent + 1 },
                some (ub.written ++ stale))
        else none
      else none
  | .refused connected =>
      if p.pc = .running then
        some ({ p with pc := if connected then .running else .left }, none)
      else none

/-! ## The subscriber -/

/-- The callback with the clock reading in it. -/
def handle (g : Globals) (_ : List Byte) (now : Timeval) : Option Globals :=
  some ((Program.ddsxrceSubThr msgSize).handle N g now)

abbrev State := PubSub.State Publisher (List Byte) Globals

/-- The subscriber only waits for samples. -/
abbrev Event := PubSub.Event Arguments PubEvent Timeval Empty

def init (start stop : Timeval) : State :=
  PubSub.init { window := { count := 0, start := start, stop := stop }
                printed := [] }

def step : State → Event → Option State :=
  PubSub.step startPublisher (publish ucdrAlignment ucdrSerializeString)
    (handle N msgSize) (fun _ e => nomatch e)

end Programs

/-! ## One step of each party -/

/-- The buffer of `main` holds its string. -/
structure Ready (p : Publisher) : Prop where
  nonneg : 0 ≤ p.msgSize.toInt
  buf : p.topic.buf = List.replicate p.msgSize.toNat 1 ++ [0]

/-- Every sample that was handled was counted. -/
def Counting (N : Nat) (msgSize : CInt) (start stop : Timeval)
    (hs : List (List Byte)) (g : Globals) : Prop :=
  (Program.ddsxrceSubThr msgSize).Counted N start stop hs.length g

theorem ready_start {a : Arguments} {p : Publisher}
    (h : startPublisher a = some p) : Ready p ∧ p.sent = 0 := by
  unfold startPublisher at h
  split at h
  · rename_i hrange
    rw [topic_eq hrange.1 hrange.2, Option.bind_eq_bind,
      Option.bind_some] at h
    obtain rfl := Option.some.inj h
    exact ⟨⟨hrange.1, rfl⟩, rfl⟩
  · cases h

section Rules

variable {ucdrAlignment : Word → Word → Word}
  {ucdrSerializeString : UcdrBuffer → List Byte → UcdrBuffer} {N : Nat}
  {msgSize : CInt} {start stop : Timeval}

/-- At the start of a stream there is no padding. -/
theorem written_eq (hwrites : WritesString ucdrSerializeString)
    {data : MyDataType} (hterminated : 0 ∈ data.buf) :
    (serializeTopic ucdrSerializeString (UcdrBuffer.startAt 0) data).1.written =
      stringBytes data.buf := by
  obtain ⟨pad, hpad, hwritten, -⟩ :=
    hwrites (UcdrBuffer.startAt 0) data.buf rfl hterminated
  obtain rfl : pad = [] :=
    List.length_eq_zero_iff.mp (hpad.unique isPadding_start)
  rw [serializeTopic, hwritten]
  rfl

/-- The size that is asked for has room for the string and nothing else. -/
theorem sizeOfTopic_eq (halign : Aligns ucdrAlignment) {p : Publisher}
    (hp : Ready p) :
    (sizeOfTopic ucdrAlignment p.msgSize p.topic 0).toNat =
      (stringBytes p.topic.buf).length := by
  have hlt := CInt.toNat_lt_of_nonneg hp.nonneg
  have hword := CInt.toWord_toNat hp.nonneg
  have hnone : (ucdrAlignment ((0 : BitVec 32).setWidth 64) 4).toNat = 0 :=
    halign.start
  rw [sizeOfTopic, topicSize_toNat halign (by omega), hword, hnone,
    stringBytes_length, hp.buf, strlen_topic, Nat.zero_add]

theorem publish_rule (halign : Aligns ucdrAlignment)
    (hwrites : WritesString ucdrSerializeString) {p p' : Publisher}
    {e : PubEvent} {out : Option (List Byte)} (hp : Ready p)
    (h : publish ucdrAlignment ucdrSerializeString p e = some (p', out)) :
    Ready p' ∧ List.replicate p'.sent (stringBytes p'.topic.buf) =
      List.replicate p.sent (stringBytes p.topic.buf) ++ out.toList := by
  have hterminated : 0 ∈ p.topic.buf := by simp [hp.buf]
  have hwritten := written_eq hwrites hterminated
  have hsize := sizeOfTopic_eq halign hp
  cases e with
  | write stale connected =>
      simp only [publish, hwritten, hsize] at h
      split at h
      · split at h
        · rename_i hroom
          obtain ⟨rfl, rfl⟩ := Prod.mk.inj (Option.some.inj h)
          obtain rfl : stale = [] :=
            List.length_eq_zero_iff.mp (by omega)
          refine ⟨⟨hp.nonneg, hp.buf⟩, ?_⟩
          rw [List.replicate_succ', List.append_nil]
          rfl
        · cases h
      · cases h
  | refused connected =>
      simp only [publish] at h
      split at h
      · obtain ⟨rfl, rfl⟩ := Prod.mk.inj (Option.some.inj h)
        exact ⟨⟨hp.nonneg, hp.buf⟩, (List.append_nil _).symm⟩
      · cases h

theorem rules (halign : Aligns ucdrAlignment)
    (hwrites : WritesString ucdrSerializeString) :
    PubSub.Rules startPublisher (publish ucdrAlignment ucdrSerializeString)
      (handle N msgSize) (fun _ (e : Empty) => nomatch e) Ready
      (fun _ => True) (Counting N msgSize start stop)
      (fun p => List.replicate p.sent (stringBytes p.topic.buf)) where
  start := by
    intro a p hp
    obtain ⟨hready, hsent⟩ := ready_start hp
    exact ⟨hready, by rw [hsent]; rfl⟩
  publish := by
    intro p e p' out hp h
    obtain ⟨hready, hsent⟩ := publish_rule halign hwrites hp h
    exact ⟨hready, fun _ _ => trivial, hsent⟩
  handle := by
    intro hs g m now g' hg _ h
    obtain rfl := Option.some.inj h
    unfold Counting
    rw [List.length_append]
    exact Program.Counted.handle hg now
  internal _ _ e := nomatch e

end Rules

/-! ## End to end -/

/-- **Samples accounted for.**  In every run of the subscriber with any number
of publishers, each sample that was written is counted by exactly one report
or by the open window, or is in flight, or was lost; and a sample is the
serialised string of its publisher with no byte behind it. -/
theorem dds_thr_accounts (ucdrAlignment : Word → Word → Word)
    (halign : Aligns ucdrAlignment)
    (ucdrSerializeString : UcdrBuffer → List Byte → UcdrBuffer)
    (hwrites : WritesString ucdrSerializeString) (N : Nat) (hN : 1 ≤ N)
    (msgSize : CInt) (start stop : Timeval) (es : List Event) (s : State)
    (h : exec (step ucdrAlignment ucdrSerializeString N msgSize)
      (init start stop) es = some s) :
    s.sub.printed.length * (N + 1) + s.sub.window.count +
        (s.link.flight.length + s.link.dropped.length) =
      (s.pubs.map Publisher.sent).sum ∧
    s.link.sent.Perm (s.pubs.flatMap fun p =>
      List.replicate p.sent (stringBytes p.topic.buf)) := by
  have hstart : Counting N msgSize start stop [] ⟨⟨0, start, stop⟩, []⟩ :=
    Program.counted_zero _ N start stop
  have hholds := PubSub.exec_rule (rules halign hwrites) hstart h
  have hcounted := Program.Counted.accounts hN hholds.sub
  have hlength := hholds.length_eq
  refine ⟨?_, hholds.emitted⟩
  rw [hcounted, hlength, List.length_flatMap]
  simp only [List.length_replicate]

/-- Two publishers of two bytes and of none: a report of two samples, one lost
and one refused, before the first publisher loses its agent. -/
def disconnected : List Event :=
  [.join ⟨2, ⟨[7, 8, 9], rfl⟩⟩, .join ⟨0, ⟨[5], rfl⟩⟩,
    .publish 0 (.write [] true), .publish 1 (.write [] true),
    .publish 1 (.refused true), .deliver 1 ⟨1, 0⟩, .deliver 0 ⟨2, 0⟩,
    .publish 0 (.write [] false), .drop 0]

theorem dds_thr_disconnected :
    ∃ s, exec (step alignment serializeString 1 2) (init ⟨0, 0⟩ ⟨0, 0⟩)
        disconnected = some s ∧
      s.sub.printed.length * (1 + 1) + s.sub.window.count +
          (s.link.flight.length + s.link.dropped.length) =
        (s.pubs.map Publisher.sent).sum ∧
      s.link.sent.Perm (s.pubs.flatMap fun p =>
        List.replicate p.sent (stringBytes p.topic.buf)) :=
  ⟨_, rfl, dds_thr_accounts alignment aligns_alignment serializeString
    writesString_serializeString 1 (by decide) 2 ⟨0, 0⟩ ⟨0, 0⟩ disconnected _
    rfl⟩

end ZenohPicoPerf.Throughput.DdsxrceSystem
