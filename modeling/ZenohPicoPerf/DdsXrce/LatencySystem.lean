import ZenohPicoPerf.DdsXrce.ArrayTopics
import ZenohPicoPerf.Latency.Stamp
import ZenohPicoPerf.Latency.Pacing
import ZenohPicoPerf.Foundation.PubSub

/-!
# ddsxrce_pub_lat and ddsxrce_sub_lat together

Any number of ddsxrce_pub_lat processes write samples to a best-effort stream,
an agent forwards them, and ddsxrce_sub_lat decodes and prints each one that
arrives.  A sample has the size that the publisher asked for, which is more
than it serialises; behind the topic stands what was in the stream before.

## Main results

* `publish_rule`, `handle_rule` — what one step of each program keeps.
* `dds_lines_are_stamps` — the printed stamps are published ones, each at
  most once.
* `dds_steps_defined` — what is undefined in a reachable state: a division.
-/

namespace ZenohPicoPerf.DdsXrce.LatencySystem

open ZenohPicoPerf.Foundation
open ZenohPicoPerf.Foundation.Memory
open ZenohPicoPerf.Foundation.Run
open ZenohPicoPerf.Common.Clock
open ZenohPicoPerf.Common.MicroCdr
open ZenohPicoPerf.Latency
open ZenohPicoPerf.Latency.Pacing (delay)

/-- `sizeof(size_t) + sizeof(size_t)` -/
def msgSize : Word := 16

/-! ## The publisher -/

inductive PubPc where
  | running
  | sleeping (connected : Bool)
  | left
deriving DecidableEq, Repr

/-- ddsxrce_pub_lat behind its set-up.  `stamps` and `samples` record what was
published. -/
structure Publisher where
  msgsPerSecond : Word
  pc : PubPc
  topic : MyDataType
  stamps : List (Word × Word)
  samples : List (List Byte)
deriving DecidableEq, Repr

/-- The argument, and the memory that `malloc` returns. -/
structure Arguments where
  msgsPerSecond : Word
  fresh : Buffer (msgSize + 1).toNat
deriving DecidableEq, Repr

def startPublisher (a : Arguments) : Option Publisher := do
  let topic ← PubLat.topic msgSize a.fresh
  some { msgsPerSecond := a.msgsPerSecond, pc := .running, topic := topic
         stamps := [], samples := [] }

/-- The two halves of the loop body.  `stale` is what the stream holds behind
the bytes that are written, `connected` the result of
`uxr_run_session_time`. -/
inductive PubEvent where
  | send (start : Timeval) (stale : List Byte) (connected : Bool)
  | sleep
deriving DecidableEq, Repr

section Programs

variable (ucdrAlignment : Word → Word → Word)
  (ucdrSerializeArray : UcdrBuffer → List Byte → Word → UcdrBuffer)
  (ucdrDeserializeArray :
    UcdrReader → List Byte → Word → UcdrReader × List Byte)

/-- `main` sleeps once more before it leaves the loop. -/
def publish (p : Publisher) :
    PubEvent → Option (Publisher × Option (List Byte))
  | .send start stale connected =>
      if p.pc = .running then do
        let topic ← PubLat.refresh p.topic start
        let topicSize := PubLat.sizeOfTopic ucdrAlignment msgSize topic 0
        let ub := (PubLat.serializeTopic ucdrSerializeArray msgSize
          (UcdrBuffer.startAt 0) topic).1
        if ub.written.length + stale.length = topicSize.toNat then
          some ({ p with
                  pc := .sleeping connected
                  topic := topic
                  stamps := p.stamps ++ [(start.tvSec, start.tvUsec)]
                  samples := p.samples ++ [ub.written ++ stale] },
                some (ub.written ++ stale))
        else none
      else none
  | .sleep =>
      match p.pc with
      | .sleeping connected => do
          let _ ← delay p.msgsPerSecond
          some ({ p with pc := if connected then .running else .left }, none)
      | _ => none

/-! ## The subscriber -/

/-- The program prints the labels of a throughput publisher. -/
def labels (msgsPerSecond : Word) : Labels :=
  { layer := "XRCE-DDS", name := "publisher", test := "throughput",
    scenario := "dpub-dagent-dsub", msgsPerSecond := msgsPerSecond }

structure Subscriber where
  msgsPerSecond : Word
  printed : List Line
deriving DecidableEq, Repr

/-- `uint8_t buf[8192]` -/
def bufSize : Nat := 8192

/-- `MyDataType_deserialize_topic` -/
def deserializeTopic (reader : UcdrReader) (data : MyDataType) :
    Bool × MyDataType :=
  let read := ucdrDeserializeArray reader data.buf (msgSize + 1)
  (!read.1.error, { buf := read.2 })

/-- What `on_topic` finds: the offset of its reader, its uninitialised
variable `data`, and the clock. -/
structure Delivery where
  offset : Word
  fresh : Buffer bufSize
  stop : Timeval
deriving DecidableEq, Repr

/-- `on_topic` does not look at the result of the deserialiser. -/
def onTopic (s : Subscriber) (sample : List Byte) (d : Delivery) :
    Option Subscriber := do
  let reader := { offset := d.offset, unread := sample, error := false }
  let data := (deserializeTopic ucdrDeserializeArray reader
    { buf := d.fresh.bytes }).2
  let (sec, usec) ← decode data.buf
  some { s with
    printed := s.printed ++
      [{ labels := labels s.msgsPerSecond, sec := sec, usec := usec,
         stop := d.stop }] }

abbrev State := PubSub.State Publisher (List Byte) Subscriber

/-- The subscriber only waits for samples. -/
abbrev Event := PubSub.Event Arguments PubEvent Delivery Empty

def init (msgsPerSecond : Word) : State :=
  PubSub.init { msgsPerSecond := msgsPerSecond, printed := [] }

def step : State → Event → Option State :=
  PubSub.step startPublisher (publish ucdrAlignment ucdrSerializeArray)
    (onTopic ucdrDeserializeArray) (fun _ e => nomatch e)

end Programs

/-! ## One step of each party -/

/-- The array has 17 bytes, and the published samples begin with the stamps. -/
structure Ready (p : Publisher) : Prop where
  size : p.topic.buf.length = 17
  samples : p.samples.map leadingWords = p.stamps

/-- A sample with room for the array. -/
def Whole (sample : List Byte) : Prop := 17 ≤ sample.length

def Printed (hs : List (List Byte)) (s : Subscriber) : Prop :=
  s.printed.map Line.words = hs.map leadingWords

theorem ready_start {a : Arguments} {p : Publisher}
    (h : startPublisher a = some p) : Ready p ∧ p.samples = [] := by
  obtain ⟨topic, htopic, hp⟩ := Option.bind_eq_some_iff.mp h
  obtain rfl := Option.some.inj hp
  obtain ⟨data, hdata, htopic⟩ := Option.bind_eq_some_iff.mp htopic
  obtain rfl := Option.some.inj htopic
  have hsize : a.fresh.bytes.length = 17 := a.fresh.size
  have hlength : data.length = 17 := by
    unfold storeByte at hdata
    split at hdata
    · obtain rfl := Option.some.inj hdata
      rw [List.length_set, hsize]
    · cases hdata
  exact ⟨⟨hlength, rfl⟩, rfl⟩

/-- A refreshed array begins with the stamp. -/
theorem refresh_eq {data data' : MyDataType} {start : Timeval}
    (h : PubLat.refresh data start = some data') :
    data'.buf =
      stampBytes start.tvSec start.tvUsec ++ data.buf.drop 16 := by
  obtain ⟨half, hhalf, hrest⟩ := Option.bind_eq_some_iff.mp h
  obtain ⟨full, hfull, hdata⟩ := Option.bind_eq_some_iff.mp hrest
  obtain rfl := Option.some.inj hdata
  obtain ⟨-, rfl⟩ := memcpy_eq_some.mp hhalf
  obtain ⟨-, rfl⟩ := memcpy_eq_some.mp hfull
  simp [stampBytes, List.drop_append]

section Rules

variable {ucdrAlignment : Word → Word → Word}
  {ucdrSerializeArray : UcdrBuffer → List Byte → Word → UcdrBuffer}
  {ucdrDeserializeArray :
    UcdrReader → List Byte → Word → UcdrReader × List Byte}

/-- Serialising an array of 17 bytes writes it. -/
theorem serialize_written (harray : WritesArray ucdrSerializeArray)
    {data : MyDataType} (hsize : data.buf.length = 17) :
    (PubLat.serializeTopic ucdrSerializeArray msgSize
      (UcdrBuffer.startAt 0) data).1.written = data.buf := by
  obtain ⟨bytes, -, htake, hwritten, -⟩ :=
    harray (UcdrBuffer.startAt 0) data.buf (msgSize + 1) rfl
  have hbytes : bytes = data.buf := by
    rw [htake hsize.ge]
    exact List.take_of_length_le hsize.le
  rw [PubLat.serializeTopic, serializeArrayTopic, hwritten, hbytes]
  rfl

/-- A published sample begins with the stamp of its iteration. -/
theorem publish_rule (harray : WritesArray ucdrSerializeArray)
    {p p' : Publisher} {e : PubEvent} {out : Option (List Byte)}
    (hp : Ready p)
    (h : publish ucdrAlignment ucdrSerializeArray p e = some (p', out)) :
    Ready p' ∧ (∀ m ∈ out, Whole m) ∧
      p'.samples = p.samples ++ out.toList := by
  cases e with
  | send start stale connected =>
      simp only [publish] at h
      split at h
      · obtain ⟨topic, htopic, hsend⟩ := Option.bind_eq_some_iff.mp h
        have hsize : topic.buf.length = 17 :=
          (refresh_length htopic).trans hp.size
        rw [serialize_written harray hsize] at hsend
        split at hsend
        · obtain ⟨rfl, rfl⟩ := Prod.mk.inj (Option.some.inj hsend)
          refine ⟨⟨hsize, ?_⟩, ?_, rfl⟩
          · rw [List.map_append, hp.samples, List.map_singleton,
              refresh_eq htopic, List.append_assoc, leadingWords_stampBytes]
          · intro m hm
            obtain rfl := Option.mem_some_iff.mp hm
            rw [Whole, List.length_append, hsize]
            exact Nat.le_add_right 17 _
        · cases hsend
      · cases h
  | sleep =>
      simp only [publish] at h
      split at h
      · obtain ⟨d, -, hout⟩ := Option.bind_eq_some_iff.mp h
        obtain ⟨rfl, rfl⟩ := Prod.mk.inj (Option.some.inj hout)
        exact ⟨⟨hp.size, hp.samples⟩, by simp, by simp⟩
      · cases h

/-- The first 17 bytes of a sample, over whatever was in the array. -/
theorem leadingWords_overlay {sample : List Byte} (h : Whole sample)
    (rest : List Byte) :
    leadingWords (sample.take 17 ++ rest) = leadingWords sample := by
  have hlong : 16 ≤ sample.length := Nat.le_of_succ_le h
  have hsplit : sample.take 17 = sample.take 16 ++ (sample.drop 16).take 1 := by
    rw [show 17 = 16 + 1 from rfl, List.take_add]
  rw [hsplit, ← stampBytes_of_take hlong, List.append_assoc,
    leadingWords_stampBytes]
  rfl

/-- The deserialiser moves 17 bytes of a sample to the start of the variable;
its first words are those of the sample. -/
theorem deserialize_decode (hreads : ReadsArray ucdrDeserializeArray)
    {sample : List Byte} (hm : Whole sample) (d : Delivery) :
    decode (deserializeTopic ucdrDeserializeArray
      { offset := d.offset, unread := sample, error := false }
      { buf := d.fresh.bytes }).2.buf = some (leadingWords sample) := by
  have hroom : (msgSize + 1).toNat ≤ d.fresh.bytes.length := by
    rw [d.fresh.size]
    decide
  have hread := (hreads
    { offset := d.offset, unread := sample, error := false } d.fresh.bytes
    (msgSize + 1) rfl hm hroom).1
  have hlong : 16 ≤ (sample.take 17 ++ d.fresh.bytes.drop 17).length := by
    rw [List.length_append, List.length_take, Nat.min_eq_left hm]
    omega
  rw [deserializeTopic, hread, show (msgSize + 1).toNat = 17 from rfl,
    decode_of_length hlong]
  exact congrArg some (leadingWords_overlay hm _)

/-- `on_topic` prints the stamp at the start of the sample. -/
theorem onTopic_eq (hreads : ReadsArray ucdrDeserializeArray)
    {sample : List Byte} (hm : Whole sample) (s : Subscriber) (d : Delivery) :
    onTopic ucdrDeserializeArray s sample d =
      some { s with
        printed := s.printed ++
          [{ labels := labels s.msgsPerSecond, sec := (leadingWords sample).1,
             usec := (leadingWords sample).2, stop := d.stop }] } := by
  simp only [onTopic, deserialize_decode hreads hm, Option.bind_eq_bind,
    Option.bind_some]

theorem handle_rule (hreads : ReadsArray ucdrDeserializeArray)
    {hs : List (List Byte)} {s s' : Subscriber} {sample : List Byte}
    {d : Delivery} (hs' : Printed hs s) (hm : Whole sample)
    (h : onTopic ucdrDeserializeArray s sample d = some s') :
    Printed (hs ++ [sample]) s' := by
  rw [onTopic_eq hreads hm] at h
  obtain rfl := Option.some.inj h
  simp only [Printed, List.map_append, List.map_cons, List.map_nil]
  rw [hs']
  rfl

theorem rules (harray : WritesArray ucdrSerializeArray)
    (hreads : ReadsArray ucdrDeserializeArray) :
    PubSub.Rules startPublisher (publish ucdrAlignment ucdrSerializeArray)
      (onTopic ucdrDeserializeArray) (fun _ (e : Empty) => nomatch e) Ready
      Whole Printed Publisher.samples where
  start _ _ h := ready_start h
  publish _ _ _ _ hp h := publish_rule harray hp h
  handle _ _ _ _ _ hs hm h := handle_rule hreads hs hm h
  internal _ _ e := nomatch e

theorem holds (harray : WritesArray ucdrSerializeArray)
    (hreads : ReadsArray ucdrDeserializeArray) {msgsPerSecond : Word}
    {es : List Event} {s : State}
    (h : exec (step ucdrAlignment ucdrSerializeArray ucdrDeserializeArray)
      (init msgsPerSecond) es = some s) :
    PubSub.Holds Ready Whole Printed Publisher.samples s :=
  PubSub.exec_rule (rules harray hreads)
    (show Printed [] { msgsPerSecond := msgsPerSecond, printed := [] }
      from rfl) h

end Rules

/-! ## End to end -/

/-- **Stamps end to end.**  In every run with any number of publishers, the
stamps of the printed lines are published stamps, each at most once, whatever
stands in the stream behind a topic and in the subscriber's variable; those
that were not printed are as many as the samples in flight and lost. -/
theorem dds_lines_are_stamps (ucdrAlignment : Word → Word → Word)
    (ucdrSerializeArray : UcdrBuffer → List Byte → Word → UcdrBuffer)
    (harray : WritesArray ucdrSerializeArray)
    (ucdrDeserializeArray :
      UcdrReader → List Byte → Word → UcdrReader × List Byte)
    (hreads : ReadsArray ucdrDeserializeArray) (msgsPerSecond : Word)
    (es : List Event) (s : State)
    (h : exec (step ucdrAlignment ucdrSerializeArray ucdrDeserializeArray)
      (init msgsPerSecond) es = some s) :
    ∃ rest, (s.sub.printed.map Line.words ++ rest).Perm
        (s.pubs.flatMap Publisher.stamps) ∧
      rest.length = s.link.flight.length + s.link.dropped.length := by
  have hholds := holds harray hreads h
  have hperm := hholds.handled.map leadingWords
  have hpublished : (s.pubs.flatMap Publisher.samples).map leadingWords =
      s.pubs.flatMap Publisher.stamps := by
    rw [List.map_flatMap]
    exact List.flatMap_congr fun p hp => (hholds.pubs p hp).samples
  rw [List.map_append, hpublished] at hperm
  refine ⟨(s.link.flight ++ s.link.dropped).map leadingWords, ?_, ?_⟩
  · rw [show s.sub.printed.map Line.words = _ from hholds.sub]
    exact hperm
  · simp

/-! ## Steps that are defined -/

theorem refresh_defined {data : MyDataType} (h : 16 ≤ data.buf.length)
    (start : Timeval) : ∃ data', PubLat.refresh data start = some data' := by
  have hhalf : memcpy data.buf 0 (wordBytes start.tvSec) = some _ :=
    memcpy_eq_some.mpr ⟨by rw [wordBytes_length]; omega, rfl⟩
  have hfull : memcpy _ 8 (wordBytes start.tvUsec) = some _ :=
    memcpy_eq_some.mpr
      ⟨by rw [memcpy_length hhalf, wordBytes_length]; omega, rfl⟩
  exact ⟨_, Option.bind_eq_some_iff.mpr
    ⟨_, hhalf, Option.bind_eq_some_iff.mpr ⟨_, hfull, rfl⟩⟩⟩

section Defined

variable {ucdrAlignment : Word → Word → Word}
  {ucdrSerializeArray : UcdrBuffer → List Byte → Word → UcdrBuffer}

/-- At offset 0 there is no padding, so a topic asks for 21 bytes. -/
theorem reserved_start (halign : Aligns ucdrAlignment) (data : MyDataType) :
    (PubLat.sizeOfTopic ucdrAlignment msgSize data 0).toNat = 21 := by
  have hnone : (ucdrAlignment ((0 : BitVec 32).setWidth 64) 4).toNat = 0 :=
    halign.start
  have hsize : (topicSize ucdrAlignment msgSize 0).toNat = _ :=
    topicSize_toNat halign (show msgSize.toNat + 8 < 2 ^ 32 by decide) 0
  rw [hnone] at hsize
  exact hsize

/-- A publisher sends its 17 bytes and four more; it can sleep unless its rate
is zero. -/
theorem publish_defined (halign : Aligns ucdrAlignment)
    (harray : WritesArray ucdrSerializeArray) {p : Publisher} (hp : Ready p) :
    (p.pc = .running → ∀ start stale connected,
      ((∃ r, publish ucdrAlignment ucdrSerializeArray p
        (.send start stale connected) = some r) ↔ stale.length = 4)) ∧
      ∀ connected, p.pc = .sleeping connected →
        ((∃ r, publish ucdrAlignment ucdrSerializeArray p .sleep = some r) ↔
          p.msgsPerSecond ≠ 0) := by
  constructor
  · intro hrunning start stale connected
    obtain ⟨topic, htopic⟩ :=
      refresh_defined (by rw [hp.size]; decide) start
    have hsize : topic.buf.length = 17 :=
      (refresh_length htopic).trans hp.size
    simp only [publish, if_pos hrunning, htopic, Option.bind_eq_bind,
      Option.bind_some, serialize_written harray hsize, hsize,
      reserved_start halign]
    constructor
    · rintro ⟨r, hr⟩
      split at hr
      · omega
      · cases hr
    · intro hstale
      rw [if_pos (by omega)]
      exact ⟨_, rfl⟩
  · intro connected hsleeping
    rw [← Pacing.delay_defined_iff]
    simp only [publish, hsleeping]
    cases delay p.msgsPerSecond <;> simp

end Defined

/-- An uninitialised variable. -/
def blank : Buffer bufSize := ⟨List.replicate bufSize 0, List.length_replicate⟩

/-- Two samples of one publisher; the first one is lost. -/
def firstLost : List Event :=
  [.join ⟨10, ⟨List.replicate 17 7, rfl⟩⟩,
    .publish 0 (.send ⟨1, 2⟩ [9, 9, 9, 9] true), .publish 0 .sleep,
    .publish 0 (.send ⟨3, 4⟩ [8, 8, 8, 8] false), .drop 0,
    .deliver 0 ⟨5, blank, ⟨6, 7⟩⟩, .publish 0 .sleep]

set_option maxRecDepth 40000 in
theorem dds_lines_first_lost :
    ∃ s, exec (step alignment serializeArray deserializeArray) (init 10)
        firstLost = some s ∧
      ∃ rest, (s.sub.printed.map Line.words ++ rest).Perm
          (s.pubs.flatMap Publisher.stamps) ∧
        rest.length = s.link.flight.length + s.link.dropped.length :=
  ⟨_, rfl, dds_lines_are_stamps alignment serializeArray
    writesArray_serializeArray deserializeArray readsArray_deserializeArray 10
    firstLost _ rfl⟩

end ZenohPicoPerf.DdsXrce.LatencySystem
