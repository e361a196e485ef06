import ZenohPicoPerf.Latency.Stamp
import ZenohPicoPerf.Foundation.Channel
import ZenohPicoPerf.Foundation.Run

/-!
# z_ping_lat and z_pong_lat: stamped pings and their echoes

`main` of z_ping_lat zeroes one buffer, stamps it and puts it on "ping"; the
handler of z_pong_lat puts every payload that it receives on "pong"; the
handler of z_ping_lat decodes what comes back and prints a line.  Any number
of pings are in flight while the buffer is used again.

## Main results

* `carried_step` — every payload in flight holds the stamp of its ping.
* `step_refines` — the two programs are a relay of pings.
* `send_defined_iff`, `deliver_defined_iff` — the accesses of the programs.
* `send_enabled`, `deliver_enabled` — none of them leaves its buffer.
* `ping_pong_paired` — every line is computed from the stamp of its own ping,
  and no ping has two lines.
-/

namespace ZenohPicoPerf.Latency.PingPong

open ZenohPicoPerf.Foundation.Memory
open ZenohPicoPerf.Foundation.Channel
open ZenohPicoPerf.Foundation.Run
open ZenohPicoPerf.Common.Clock

/-- The columns in front of the interval, printed only with `-s`. -/
def columns (scenario : Option String) : Option (List String) :=
  scenario.map fun s => ["zenoh-pico", "publisher", "latency", s]

/-- The round trip in microseconds.  The stamps are `size_t`, so every
operation is unsigned. -/
def elapsed (stop : Timespec) (tvSec tvNsec : Word) : Word :=
  (stop.tvSec - tvSec) * 1000000 + (stop.tvNsec - tvNsec) / 1000

/-- A sample on either topic.  `ping` is the number of the ping that the
payload was put for; it is not part of the payload. -/
structure Sample where
  ping : Nat
  payload : List Byte
deriving DecidableEq, Repr

/-- One printed line.  The last column is half of `elapsed`. -/
structure Line where
  columns : Option (List String)
  ping : Nat
  tvSec : Word
  tvNsec : Word
  stop : Timespec
deriving DecidableEq, Repr

def Line.elapsed (l : Line) : Word :=
  PingPong.elapsed l.stop l.tvSec l.tvNsec

/-- The buffer of `main`, the stamps of all pings in the order in which they
were put, the samples in flight on the two topics, and the output. -/
structure State where
  data : List Byte
  sent : List Timespec
  pings : List Sample
  pongs : List Sample
  printed : List Line
deriving DecidableEq, Repr

/-- `data` comes from `malloc`. -/
def start {n : Nat} (data : Buffer n) : State :=
  { data := data.bytes, sent := [], pings := [], pongs := [], printed := [] }

inductive Event where
  | send (now : Timespec)
  | echo (i : Nat)
  | deliver (i : Nat) (stop : Timespec)
  | dropPing (i : Nat)
  | dropPong (i : Nat)
deriving DecidableEq, Repr

/-- `z_publisher_put` copies the payload before it returns. -/
def step (payloadSize : Nat) (scenario : Option String) (s : State) :
    Event → Option State
  | .send now => do
      let data ← stamp s.data payloadSize now.tvSec now.tvNsec
      some { s with
        data := data
        sent := s.sent ++ [now]
        pings := s.pings ++
          [{ ping := s.sent.length, payload := data.take payloadSize }] }
  | .echo i => do
      let (m, rest) ← receive s.pings i
      some { s with pings := rest, pongs := s.pongs ++ [m] }
  | .deliver i stop => do
      let (m, rest) ← receive s.pongs i
      let (tvSec, tvNsec) ← decode m.payload
      some { s with
        pongs := rest
        printed := s.printed ++
          [{ columns := columns scenario, ping := m.ping, tvSec := tvSec,
             tvNsec := tvNsec, stop := stop }] }
  | .dropPing i => do
      let (_, rest) ← receive s.pings i
      some { s with pings := rest }
  | .dropPong i => do
      let (_, rest) ← receive s.pongs i
      some { s with pongs := rest }

/-- Everything one step can do. -/
theorem step_cases {n : Nat} {scenario : Option String} {s s' : State}
    {e : Event} (h : step n scenario s e = some s') :
    (∃ now data, e = .send now ∧
      stamp s.data n now.tvSec now.tvNsec = some data ∧
      s' = { s with
        data := data
        sent := s.sent ++ [now]
        pings := s.pings ++
          [{ ping := s.sent.length, payload := data.take n }] }) ∨
    (∃ i m rest, e = .echo i ∧ receive s.pings i = some (m, rest) ∧
      s' = { s with pings := rest, pongs := s.pongs ++ [m] }) ∨
    (∃ i stop m rest tvSec tvNsec, e = .deliver i stop ∧
      receive s.pongs i = some (m, rest) ∧
      decode m.payload = some (tvSec, tvNsec) ∧
      s' = { s with
        pongs := rest
        printed := s.printed ++
          [{ columns := columns scenario, ping := m.ping, tvSec := tvSec,
             tvNsec := tvNsec, stop := stop }] }) ∨
    (∃ i m rest, e = .dropPing i ∧ receive s.pings i = some (m, rest) ∧
      s' = { s with pings := rest }) ∨
    (∃ i m rest, e = .dropPong i ∧ receive s.pongs i = some (m, rest) ∧
      s' = { s with pongs := rest }) := by
  cases e with
  | send now =>
      obtain ⟨data, hdata, hs'⟩ := Option.bind_eq_some_iff.mp h
      exact Or.inl ⟨now, data, rfl, hdata, (Option.some.inj hs').symm⟩
  | echo i =>
      obtain ⟨⟨m, rest⟩, hm, hs'⟩ := Option.bind_eq_some_iff.mp h
      exact Or.inr (Or.inl ⟨i, m, rest, rfl, hm, (Option.some.inj hs').symm⟩)
  | deliver i stop =>
      obtain ⟨⟨m, rest⟩, hm, hrest⟩ := Option.bind_eq_some_iff.mp h
      obtain ⟨⟨tvSec, tvNsec⟩, hdecode, hs'⟩ :=
        Option.bind_eq_some_iff.mp hrest
      exact Or.inr (Or.inr (Or.inl ⟨i, stop, m, rest, tvSec, tvNsec, rfl, hm,
        hdecode, (Option.some.inj hs').symm⟩))
  | dropPing i =>
      obtain ⟨⟨m, rest⟩, hm, hs'⟩ := Option.bind_eq_some_iff.mp h
      exact Or.inr (Or.inr (Or.inr (Or.inl
        ⟨i, m, rest, rfl, hm, (Option.some.inj hs').symm⟩)))
  | dropPong i =>
      obtain ⟨⟨m, rest⟩, hm, hs'⟩ := Option.bind_eq_some_iff.mp h
      exact Or.inr (Or.inr (Or.inr (Or.inr
        ⟨i, m, rest, rfl, hm, (Option.some.inj hs').symm⟩)))

/-! ## What the payloads hold -/

/-- The payload begins with the stamp of the ping that it was put for. -/
def Carries (sent : List Timespec) (m : Sample) : Prop :=
  ∃ t rest, sent[m.ping]? = some t ∧
    m.payload = stampBytes t.tvSec t.tvNsec ++ rest

/-- The line is computed from the stamp of its ping. -/
def OwnStamp (sent : List Timespec) (l : Line) : Prop :=
  ∃ t, sent[l.ping]? = some t ∧ l.tvSec = t.tvSec ∧ l.tvNsec = t.tvNsec

/-- What every step keeps. -/
structure Carried (n : Nat) (s : State) : Prop where
  data : s.data.length = n
  pings : ∀ m ∈ s.pings, Carries s.sent m
  pongs : ∀ m ∈ s.pongs, Carries s.sent m
  printed : ∀ l ∈ s.printed, OwnStamp s.sent l

theorem Carries.mono {sent : List Timespec} {m : Sample}
    (h : Carries sent m) (now : Timespec) : Carries (sent ++ [now]) m := by
  obtain ⟨t, rest, ht, hpayload⟩ := h
  exact ⟨t, rest, getElem?_snoc ht now, hpayload⟩

theorem OwnStamp.mono {sent : List Timespec} {l : Line}
    (h : OwnStamp sent l) (now : Timespec) : OwnStamp (sent ++ [now]) l := by
  obtain ⟨t, ht, hline⟩ := h
  exact ⟨t, getElem?_snoc ht now, hline⟩

theorem Carries.decode {sent : List Timespec} {m : Sample}
    (h : Carries sent m) :
    ∃ t, sent[m.ping]? = some t ∧
      Latency.decode m.payload = some (t.tvSec, t.tvNsec) := by
  obtain ⟨t, rest, ht, hpayload⟩ := h
  exact ⟨t, ht, by rw [hpayload]; exact decode_words _ _ _⟩

/-- The buffer that `main` puts, whatever it held before. -/
theorem stamp_data {n : Nat} (hn : 16 ≤ n) {s : State} (hs : s.data.length = n)
    {now : Timespec} {data : List Byte}
    (h : stamp s.data n now.tvSec now.tvNsec = some data) :
    data.length = n ∧ ∃ rest,
      data.take n = stampBytes now.tvSec now.tvNsec ++ rest := by
  rw [stamp_eq hn hs.ge, ← hs, List.drop_length, List.append_nil] at h
  obtain rfl := Option.some.inj h
  have hlen : (stampBytes now.tvSec now.tvNsec ++
      List.replicate (s.data.length - 16) 0).length = n := by
    rw [List.length_append, stampBytes_length, List.length_replicate]
    omega
  exact ⟨hlen, List.replicate (s.data.length - 16) 0,
    List.take_of_length_le hlen.le⟩

/-- One step keeps the stamps in their payloads. -/
theorem carried_step {n : Nat} (hn : 16 ≤ n) {scenario : Option String}
    {s s' : State} {e : Event} (hs : Carried n s)
    (h : step n scenario s e = some s') : Carried n s' := by
  rcases step_cases h with ⟨now, data, -, hdata, rfl⟩ |
    ⟨i, m, rest, -, hm, rfl⟩ |
    ⟨i, stop, m, rest, tvSec, tvNsec, -, hm, hdecode, rfl⟩ |
    ⟨i, m, rest, -, hm, rfl⟩ | ⟨i, m, rest, -, hm, rfl⟩
  · obtain ⟨hlen, tail, hpayload⟩ := stamp_data hn hs.data hdata
    refine
      { data := hlen
        pings := ?_
        pongs := fun m hm => (hs.pongs m hm).mono now
        printed := fun l hl => (hs.printed l hl).mono now }
    intro m hm
    rcases List.mem_append.mp hm with hold | hnew
    · exact (hs.pings m hold).mono now
    · rw [List.mem_singleton.mp hnew]
      exact ⟨now, tail, List.getElem?_concat_length, hpayload⟩
  · obtain ⟨hcarries, hrest⟩ := receive_forall hm hs.pings
    refine { hs with pings := hrest, pongs := ?_ }
    intro x hx
    rcases List.mem_append.mp hx with hold | hnew
    · exact hs.pongs x hold
    · rw [List.mem_singleton.mp hnew]
      exact hcarries
  · obtain ⟨hcarries, hrest⟩ := receive_forall hm hs.pongs
    obtain ⟨t, ht, hstamp⟩ := hcarries.decode
    refine { hs with pongs := hrest, printed := ?_ }
    intro l hl
    rcases List.mem_append.mp hl with hold | hnew
    · exact hs.printed l hold
    · rw [List.mem_singleton.mp hnew]
      obtain ⟨rfl, rfl⟩ : t.tvSec = tvSec ∧ t.tvNsec = tvNsec := by
        simpa using hstamp.symm.trans hdecode
      exact ⟨t, ht, rfl, rfl⟩
  · exact { hs with pings := (receive_forall hm hs.pings).2 }
  · exact { hs with pongs := (receive_forall hm hs.pongs).2 }

/-! ## What can happen -/

/-- `main` can send exactly when it stamps bytes of its buffer only. -/
theorem send_defined_iff {n : Nat} {scenario : Option String} {s : State}
    {now : Timespec} :
    (∃ s', step n scenario s (.send now) = some s') ↔
      InBounds s.data.length (stampAccesses n) := by
  rw [← stamp_defined_iff]
  exact exists_bind_iff fun data => ⟨_, rfl⟩

/-- The handler can take an echo exactly when it decodes bytes of the payload
only. -/
theorem deliver_defined_iff {n : Nat} {scenario : Option String} {s : State}
    {i : Nat} {m : Sample} {rest : List Sample}
    (hm : receive s.pongs i = some (m, rest)) (stop : Timespec) :
    (∃ s', step n scenario s (.deliver i stop) = some s') ↔
      InBounds m.payload.length decodeAccesses := by
  rw [← decode_defined_iff]
  simp only [step, hm, Option.bind_eq_bind, Option.bind_some]
  exact exists_bind_iff fun words => ⟨_, rfl⟩

/-- Stamping never leaves the buffer, so `main` can always send. -/
theorem send_enabled {n : Nat} (hn : 16 ≤ n) {scenario : Option String}
    {s : State} (hs : Carried n s) (now : Timespec) :
    ∃ s', step n scenario s (.send now) = some s' := by
  rw [send_defined_iff, inBounds_stamp_iff, hs.data]
  exact ⟨Nat.le_refl n, hn⟩

/-- Decoding an echo never leaves its payload, so whatever is in flight can
be delivered. -/
theorem deliver_enabled {n : Nat} {scenario : Option String} {s : State}
    (hs : Carried n s) {i : Nat} (hi : i < s.pongs.length) (stop : Timespec) :
    ∃ s', step n scenario s (.deliver i stop) = some s' := by
  obtain ⟨m, rest, hm⟩ := receive_isSome hi
  obtain ⟨t, -, hdecode⟩ := (receive_forall hm hs.pongs).1.decode
  exact (deliver_defined_iff hm stop).mpr (decode_defined_iff.mp ⟨_, hdecode⟩)

/-! ## The relay of pings -/

/-- The numbers of the pings that were sent, are in flight and came back. -/
def relay (s : State) : Relay Nat :=
  { sent := List.range s.sent.length
    outbound := s.pings.map Sample.ping
    inbound := s.pongs.map Sample.ping
    delivered := s.printed.map Line.ping }

theorem receive_ping {c rest : List Sample} {i : Nat} {m : Sample}
    (h : receive c i = some (m, rest)) :
    (m.ping :: rest.map Sample.ping).Perm (c.map Sample.ping) :=
  (receive_perm h).map Sample.ping

/-- One step of the two programs is one step of the relay. -/
theorem step_refines {n : Nat} {scenario : Option String} {s s' : State}
    {e : Event} (h : step n scenario s e = some s') :
    Step (relay s) (relay s') := by
  rcases step_cases h with ⟨now, data, -, -, rfl⟩ | ⟨i, m, rest, -, hm, rfl⟩ |
    ⟨i, stop, m, rest, tvSec, tvNsec, -, hm, -, rfl⟩ |
    ⟨i, m, rest, -, hm, rfl⟩ | ⟨i, m, rest, -, hm, rfl⟩
  · have hsend := Step.send (relay s) s.sent.length
    simpa [relay, List.range_succ] using hsend
  · have hecho := Step.echo (relay s) m.ping _ (receive_ping hm)
    simpa [relay] using hecho
  · have hdeliver := Step.deliver (relay s) m.ping _ (receive_ping hm)
    simpa [relay] using hdeliver
  · exact Step.dropOutbound (relay s) m.ping _ (receive_ping hm)
  · exact Step.dropInbound (relay s) m.ping _ (receive_ping hm)

theorem run_refines {n : Nat} (hn : 16 ≤ n) {scenario : Option String}
    {data : Buffer n} {es : List Event} {s : State}
    (h : exec (step n scenario) (start data) es = some s) :
    Carried n s ∧ Relation.ReflTransGen Step Relay.empty (relay s) := by
  have hstart : Carried n (start data) :=
    { data := data.size, pings := by simp [start], pongs := by simp [start],
      printed := by simp [start] }
  exact exec_refines_of_invariant (fun _ => relay) (Carried n) hstart
    (fun _ _ _ hs hstep => carried_step hn hs hstep)
    (fun _ _ _ _ _ hstep => Relation.ReflGen.single (step_refines hstep))
    es s h

/-- **Pings and lines.**  Whatever the order of sends, echoes, deliveries and
losses, every printed line is computed from the stamp that was put into the
ping whose echo triggered it, and no ping has two lines. -/
theorem ping_pong_paired (n : Nat) (hn : 16 ≤ n) (scenario : Option String)
    (data : Buffer n) (es : List Event) (s : State)
    (h : exec (step n scenario) (start data) es = some s) :
    (∀ l ∈ s.printed, OwnStamp s.sent l) ∧
      (s.printed.map Line.ping).Nodup := by
  obtain ⟨hcarried, hrun⟩ := run_refines hn h
  exact ⟨hcarried.printed,
    delivered_nodup (unduplicated_of_run hrun) List.nodup_range⟩

/-- Two pings of 17 bytes; the second comes back first and the first is lost
on its way back. -/
def twoPings : List Event :=
  [.send ⟨1, 5⟩, .send ⟨2, 7⟩, .echo 1, .deliver 0 ⟨3, 0⟩, .echo 0,
    .dropPong 0]

theorem ping_pong_paired_two :
    ∃ s, exec (step 17 none) (start ⟨List.replicate 17 9, rfl⟩) twoPings =
        some s ∧
      s.printed.length = 1 ∧ (∀ l ∈ s.printed, OwnStamp s.sent l) ∧
      (s.printed.map Line.ping).Nodup :=
  ⟨_, rfl, rfl, ping_pong_paired 17 (by decide) none ⟨List.replicate 17 9, rfl⟩
    twoPings _ rfl⟩

end ZenohPicoPerf.Latency.PingPong
