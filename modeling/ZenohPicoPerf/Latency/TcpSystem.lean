import ZenohPicoPerf.Latency.Tcp
import ZenohPicoPerf.Latency.Pacing
import ZenohPicoPerf.Foundation.Pipe

/-!
# tcp_pub_lat and tcp_sub_lat together

Any number of tcp_pub_lat processes connect to one tcp_sub_lat, each with its
own number of messages a second.  A client stamps its buffer, writes it and
sleeps; the server accepts one connection after the other and reads from the
one that it accepted last.

As long as no `write` is cut short and every `read` returns a record, or
nothing after an orderly close, the streams of bytes are streams of records.
The server prints a line for each of these reads.  The lines of the records are
what the clients stamped: from each connection, in order, a beginning of it.
The lines of the other reads repeat what stands in the buffer.

## Main results

* `Aligned.step` — one step keeps the streams aligned.
* `tcp_lines_are_stamps` — what the server prints, for whole runs.
-/

namespace ZenohPicoPerf.Latency.TcpSystem

open ZenohPicoPerf.Foundation
open ZenohPicoPerf.Foundation.Memory
open ZenohPicoPerf.Foundation.Run
open ZenohPicoPerf.Common.Clock
open ZenohPicoPerf.Latency.Tcp
open ZenohPicoPerf.Latency.Pacing

/-! ## The system -/

/-- Where a client is in its loop; `start` is the clock reading of this
iteration. -/
inductive ClientPc where
  | clock
  | write (start : Timeval)
  | sleep
  | closed
deriving DecidableEq, Repr

/-- A tcp_pub_lat behind its `connect`.  `sent` records the stamps that it
passed to a `write` that did not fail. -/
structure Client where
  msgsPerSecond : Word
  pc : ClientPc
  buf : List Byte
  sent : List (Word × Word)
deriving DecidableEq, Repr

structure State where
  clients : List Client
  net : Listener Byte
  server : Tcp.State
deriving DecidableEq, Repr

def init : State :=
  { clients := [], net := Listener.init, server := Tcp.init }

/-- What the operating system answers to whom.  `connect` starts a client;
`fresh` is the memory that its `malloc` returns. -/
inductive Event where
  | connect (msgsPerSecond : Word) (fresh : Buffer msgSize)
  | clock (i : Nat) (start : Timeval)
  | write (i : Nat) (n : CInt)
  | sleep (i : Nat)
  | server (e : Tcp.Event)
deriving DecidableEq, Repr

/-- The bytes that the server reads come from the connection that it accepted
last.  A client that divides by zero stays where it is. -/
def step (rate : Word) (s : State) : Event → Option State
  | .connect msgsPerSecond fresh =>
      some { s with
        clients := s.clients ++
          [{ msgsPerSecond := msgsPerSecond, pc := .clock,
             buf := fresh.bytes, sent := [] }]
        net := s.net.connect }
  | .clock i start => do
      let c ← s.clients[i]?
      if c.pc = .clock then do
        let buf ← stamp c.buf msgSize start.tvSec start.tvUsec
        some { s with
          clients := s.clients.set i { c with pc := .write start, buf := buf } }
      else none
  | .write i n => do
      let c ← s.clients[i]?
      match c.pc with
      | .write start =>
          if n.toInt < 0 then
            some { s with clients := s.clients.set i { c with pc := .closed } }
          else if n.toNat ≤ c.buf.length then do
            let net ← s.net.write i (c.buf.take n.toNat)
            some { s with
              clients := s.clients.set i
                { c with
                  pc := .sleep
                  sent := c.sent ++ [(start.tvSec, start.tvUsec)] }
              net := net }
          else none
      | _ => none
  | .sleep i => do
      let c ← s.clients[i]?
      if c.pc = .sleep then do
        let _ ← delay c.msgsPerSecond
        some { s with clients := s.clients.set i { c with pc := .clock } }
      else none
  | .server (.accept csock fresh) => do
      let server ← Tcp.step rate s.server (.accept csock fresh)
      if csock.toInt < 0 then some { s with server := server }
      else do
        let net ← s.net.accept
        some { s with net := net, server := server }
  | .server (.read .failed) => do
      let server ← Tcp.step rate s.server (.read .failed)
      some { s with server := server }
  | .server (.read (.data bytes fits)) => do
      let server ← Tcp.step rate s.server (.read (.data bytes fits))
      let (got, net) ← s.net.read bytes.length
      if got = bytes then some { s with net := net, server := server }
      else none
  | .server (.clock stop) => do
      let server ← Tcp.step rate s.server (.clock stop)
      some { s with server := server }

/-- No `write` is cut short, and a `read` that does not fail returns a record
or, at the end of the stream, no byte at all. -/
def Event.Whole : Event → Prop
  | .write _ n => n.toInt < 0 ∨ n.toNat = msgSize
  | .server (.read (.data bytes _)) =>
      bytes.length = msgSize ∨ bytes.length = 0
  | _ => True

instance (e : Event) : Decidable e.Whole := by
  unfold Event.Whole
  split <;> infer_instance

/-! ## The invariant -/

/-- The bytes of a stamp. -/
def record (w : Word × Word) : List Byte := stampBytes w.1 w.2

theorem record_length (w : Word × Word) : (record w).length = msgSize :=
  stampBytes_length _ _

/-- The stamps of the lines, one that is not printed yet included. -/
def stamps (s : Tcp.State) : List (Word × Word) :=
  s.printed.map Line.words ++
    if s.pc = .decode then [leadingWords s.buf.bytes] else []

/-- How much a `read` of the server returned. -/
def Event.amount : Event → Option Nat
  | .server (.read (.data bytes _)) => some bytes.length
  | _ => none

def amounts (es : List Event) : List Nat := es.filterMap Event.amount

theorem amounts_snoc (es : List Event) (e : Event) :
    amounts (es ++ [e]) = amounts es ++ e.amount.toList := by
  unfold amounts
  rw [List.filterMap_append]
  cases h : e.amount <;> simp [h]

/-- The lines whose `read` returned a record. -/
def ofRecords (ns : List Nat) (ws : List (Word × Word)) : List (Word × Word) :=
  ((ns.zip ws).filter fun p => p.1 = msgSize).map Prod.snd

theorem ofRecords_snoc {ns : List Nat} {ws : List (Word × Word)}
    (h : ns.length = ws.length) (n : Nat) (w : Word × Word) :
    ofRecords (ns ++ [n]) (ws ++ [w]) =
      ofRecords ns ws ++ if n = msgSize then [w] else [] := by
  unfold ofRecords
  rw [List.zip_append h]
  by_cases hn : n = msgSize <;> simp [hn]

/-- A client's buffer is whole, and holds the clock reading when it is about
to be written. -/
structure Client.Ready (c : Client) : Prop where
  size : c.buf.length = msgSize
  stamped : ∀ start, c.pc = .write start →
    c.buf = record (start.tvSec, start.tvUsec)

/-- The streams of bytes are the streams `m` of stamps; `ns` is how much the
reads returned. -/
structure Aligned (ns : List Nat) (s : State) (m : Listener (Word × Word)) :
    Prop where
  net : s.net = m.encode record
  sent : m.pipes.map Pipe.written = s.clients.map Client.sent
  fresh : m.Fresh
  lines : ns.length = (stamps s.server).length
  records : ofRecords ns (stamps s.server) = m.log
  ready : ∀ c ∈ s.clients, c.Ready

theorem aligned_init : Aligned [] init Listener.init where
  net := rfl
  sent := rfl
  fresh := Listener.fresh_init
  lines := rfl
  records := rfl
  ready := by simp [init]

/-! ## One step -/

section Steps

variable {rate : Word} {ns : List Nat} {s s' : State}
  {m : Listener (Word × Word)}

/-- A client changes and the stream does not. -/
theorem Aligned.set (h : Aligned ns s m) {i : Nat} {c d : Client}
    (hc : s.clients[i]? = some c) (hsent : d.sent = c.sent) (hd : d.Ready) :
    Aligned ns { s with clients := s.clients.set i d } m where
  net := h.net
  sent := h.sent.trans (Table.map_set_same hc hsent).symm
  fresh := h.fresh
  lines := h.lines
  records := h.records
  ready := Table.forall_set h.ready hd i

theorem Aligned.connect (h : Aligned ns s m) {msgsPerSecond : Word}
    {fresh : Buffer msgSize}
    (hstep : step rate s (.connect msgsPerSecond fresh) = some s') :
    Aligned ns s' m.connect := by
  obtain rfl := Option.some.inj hstep
  refine
    { net := by rw [h.net, Listener.encode_connect]
      sent := by simp [Listener.connect, h.sent, Pipe.empty]
      fresh := Listener.fresh_connect h.fresh
      lines := h.lines
      records := by rw [Listener.log_connect]; exact h.records
      ready := ?_ }
  intro c hc
  rcases List.mem_append.mp hc with hmem | hnew
  · exact h.ready c hmem
  · obtain rfl := List.mem_singleton.mp hnew
    exact ⟨fresh.size, fun start hpc => by cases hpc⟩

theorem Aligned.clock (h : Aligned ns s m) {i : Nat} {start : Timeval}
    (hstep : step rate s (.clock i start) = some s') : Aligned ns s' m := by
  obtain ⟨c, hc, hclient⟩ := Option.bind_eq_some_iff.mp hstep
  split at hclient
  · obtain ⟨buf, hbuf, hs'⟩ := Option.bind_eq_some_iff.mp hclient
    obtain rfl := Option.some.inj hs'
    have hsize := (h.ready c (List.mem_of_getElem? hc)).size
    -- all 16 bytes are overwritten
    have hrecord : buf = record (start.tvSec, start.tvUsec) := by
      rw [stamp_eq (show 16 ≤ msgSize by decide) hsize.ge, ← hsize,
        List.drop_length, Option.some.injEq] at hbuf
      rw [← hbuf]
      simp [record, hsize, msgSize]
    refine h.set hc rfl ⟨hrecord ▸ record_length _, ?_⟩
    intro start' hpc
    obtain rfl : start = start' := by simpa using hpc
    exact hrecord
  · cases hclient

theorem Aligned.sleep (h : Aligned ns s m) {i : Nat}
    (hstep : step rate s (.sleep i) = some s') : Aligned ns s' m := by
  obtain ⟨c, hc, hclient⟩ := Option.bind_eq_some_iff.mp hstep
  split at hclient
  · obtain ⟨d, -, hs'⟩ := Option.bind_eq_some_iff.mp hclient
    obtain rfl := Option.some.inj hs'
    have hsize := (h.ready c (List.mem_of_getElem? hc)).size
    exact h.set hc rfl ⟨hsize, fun start hpc => by cases hpc⟩
  · cases hclient

/-- A whole `write` puts the stamp of this iteration on the stream. -/
theorem Aligned.write (h : Aligned ns s m) {i : Nat} {n : CInt}
    (hwhole : (Event.write i n).Whole)
    (hstep : step rate s (.write i n) = some s') : ∃ m', Aligned ns s' m' := by
  obtain ⟨c, hc, hclient⟩ := Option.bind_eq_some_iff.mp hstep
  have hready := h.ready c (List.mem_of_getElem? hc)
  split at hclient
  · rename_i start hpc
    split at hclient
    · obtain rfl := Option.some.inj hclient
      exact ⟨m, h.set hc rfl ⟨hready.size, fun start hpc => by cases hpc⟩⟩
    · rename_i hnonneg
      split at hclient
      · obtain ⟨net, hnet, hs'⟩ := Option.bind_eq_some_iff.mp hclient
        obtain rfl := Option.some.inj hs'
        have hn : n.toNat = msgSize := by
          rcases hwhole with hneg | hfull
          · exact absurd hneg hnonneg
          · exact hfull
        rw [hn, ← hready.size, List.take_length, hready.stamped start hpc,
          h.net] at hnet
        obtain ⟨m', hm', rfl⟩ := Listener.encode_write hnet
        obtain ⟨hfresh, hlog⟩ := Listener.fresh_write h.fresh hm'
        obtain ⟨p, hp, rfl⟩ := Listener.write_eq_some.mp hm'
        have hwritten : p.written = c.sent := by
          have hentry := congrArg (·[i]?) h.sent
          simpa [hp, hc] using hentry
        refine ⟨_, rfl, ?_, hfresh, h.lines, hlog ▸ h.records, ?_⟩
        · simp only [List.map_set, h.sent, Pipe.push, hwritten]
        · refine Table.forall_set h.ready ?_ i
          exact ⟨hready.size, fun start hpc => by cases hpc⟩
      · cases hclient
  · cases hclient

/-- What the server does without reading. -/
theorem Aligned.quiet (h : Aligned ns s m) {server : Tcp.State}
    (hstamps : stamps server = stamps s.server) :
    Aligned ns { s with server := server } m where
  net := h.net
  sent := h.sent
  fresh := h.fresh
  lines := hstamps ▸ h.lines
  records := hstamps ▸ h.records
  ready := h.ready

/-- Outside the loop body everything that was read is printed. -/
theorem stamps_printed {server : Tcp.State} (h : server.pc ≠ .decode) :
    stamps server = server.printed.map Line.words := by
  rw [stamps, if_neg h, List.append_nil]

theorem Aligned.accept (h : Aligned ns s m) {csock : CInt}
    {fresh : Buffer msgSize}
    (hstep : step rate s (.server (.accept csock fresh)) = some s') :
    ∃ m', Aligned ns s' m' := by
  obtain ⟨server, hserver, haccept⟩ := Option.bind_eq_some_iff.mp hstep
  simp only [Tcp.step] at hserver
  split at hserver
  · rename_i hpc
    have hbefore : stamps s.server = s.server.printed.map Line.words :=
      stamps_printed (by simp [hpc])
    split at hserver
    · rename_i hneg
      obtain rfl := Option.some.inj hserver
      rw [if_pos hneg] at haccept
      obtain rfl := Option.some.inj haccept
      exact ⟨m, h.quiet (hbefore ▸ stamps_printed (by simp))⟩
    · rename_i hnonneg
      obtain rfl := Option.some.inj hserver
      rw [if_neg hnonneg] at haccept
      obtain ⟨net, hnet, hs'⟩ := Option.bind_eq_some_iff.mp haccept
      obtain rfl := Option.some.inj hs'
      rw [h.net] at hnet
      obtain ⟨m', hm', rfl⟩ := Listener.encode_accept hnet
      obtain ⟨hfresh, hlog⟩ := Listener.fresh_accept h.fresh hm'
      obtain ⟨-, rfl⟩ := Listener.accept_eq_some.mp hm'
      have hafter : stamps { s.server with pc := .read, buf := fresh } =
          stamps s.server := hbefore ▸ stamps_printed (by simp)
      exact ⟨_, rfl, h.sent, hfresh, hafter ▸ h.lines,
        (hafter ▸ h.records).trans hlog.symm, h.ready⟩
  · cases hserver

theorem Aligned.failed (h : Aligned ns s m)
    (hstep : step rate s (.server (.read .failed)) = some s') :
    Aligned ns s' m := by
  obtain ⟨server, hserver, hs'⟩ := Option.bind_eq_some_iff.mp hstep
  obtain rfl := Option.some.inj hs'
  simp only [Tcp.step] at hserver
  split at hserver
  · rename_i hpc
    obtain rfl := Option.some.inj hserver
    have hbefore : stamps s.server = s.server.printed.map Line.words :=
      stamps_printed (by simp [hpc])
    exact h.quiet (hbefore ▸ stamps_printed (by simp))
  · cases hserver

/-- The server behind a `read`, before it prints. -/
def filled (server : Tcp.State) (bytes : List Byte)
    (fits : bytes.length ≤ msgSize) : Tcp.State :=
  { server with pc := .decode, buf := server.buf.fill bytes fits }

/-- What a `read` leaves to be printed. -/
theorem stamps_filled {server : Tcp.State} (hpc : server.pc = .read)
    (bytes : List Byte) (fits : bytes.length ≤ msgSize) :
    stamps (filled server bytes fits) =
      stamps server ++ [leadingWords (server.buf.fill bytes fits).bytes] := by
  have hbefore : stamps server = server.printed.map Line.words :=
    stamps_printed (by simp [hpc])
  rw [hbefore]
  rfl

/-- Every `read` leaves one stamp, and the one of a record is counted. -/
theorem Aligned.counts (h : Aligned ns s m) (hpc : s.server.pc = .read)
    (bytes : List Byte) (fits : bytes.length ≤ msgSize) :
    (ns ++ [bytes.length]).length =
        (stamps (filled s.server bytes fits)).length ∧
      ofRecords (ns ++ [bytes.length]) (stamps (filled s.server bytes fits)) =
        m.log ++ if bytes.length = msgSize then
          [leadingWords (s.server.buf.fill bytes fits).bytes] else [] := by
  rw [stamps_filled hpc bytes fits]
  constructor
  · simp [h.lines]
  · rw [ofRecords_snoc h.lines, h.records]

/-- The `read` of a record takes the next stamp of the connection off the
stream. -/
theorem Aligned.readRecord (h : Aligned ns s m) (hpc : s.server.pc = .read)
    {bytes : List Byte} {fits : bytes.length ≤ msgSize}
    (hfull : bytes.length = msgSize) {net : Listener Byte}
    (hnet : s.net.read bytes.length = some (bytes, net)) :
    ∃ m', Aligned (ns ++ [bytes.length])
      { s with net := net, server := filled s.server bytes fits } m' := by
  obtain ⟨hlines, hrecords⟩ := h.counts hpc bytes fits
  rw [if_pos hfull, s.server.buf.fill_full hfull] at hrecords
  rw [hfull, h.net] at hnet
  obtain ⟨w, m', hm', hbytes, rfl⟩ :=
    Listener.encode_read record_length (by decide) hnet
  obtain ⟨hfresh, hlog⟩ := Listener.log_read h.fresh hm'
  have hwords : leadingWords bytes = w := by
    rw [hbytes]
    exact leadingWords_stamp w.1 w.2
  rw [hwords, ← hlog] at hrecords
  have hsent : m'.pipes.map Pipe.written = s.clients.map Client.sent :=
    (Listener.read_written hm').trans h.sent
  exact ⟨m', rfl, hsent, hfresh, hlines, hrecords, h.ready⟩

/-- A `read` of nothing leaves the stream alone. -/
theorem Aligned.readNothing (h : Aligned ns s m) (hpc : s.server.pc = .read)
    {bytes : List Byte} {fits : bytes.length ≤ msgSize}
    (hempty : bytes.length = 0) {net : Listener Byte}
    (hnet : s.net.read bytes.length = some (bytes, net)) :
    Aligned (ns ++ [bytes.length])
      { s with net := net, server := filled s.server bytes fits } m := by
  obtain ⟨hlines, hrecords⟩ := h.counts hpc bytes fits
  have hshort : bytes.length ≠ msgSize := by
    rw [hempty]
    decide
  rw [if_neg hshort, List.append_nil] at hrecords
  rw [hempty] at hnet
  obtain rfl := Listener.read_nothing hnet
  exact ⟨h.net, h.sent, h.fresh, hlines, hrecords, h.ready⟩

theorem Aligned.data (h : Aligned ns s m) {bytes : List Byte}
    {fits : bytes.length ≤ msgSize}
    (hwhole : bytes.length = msgSize ∨ bytes.length = 0)
    (hstep : step rate s (.server (.read (.data bytes fits))) = some s') :
    ∃ m', Aligned (ns ++ [bytes.length]) s' m' := by
  obtain ⟨server, hserver, hread⟩ := Option.bind_eq_some_iff.mp hstep
  obtain ⟨⟨got, net⟩, hnet, hgot⟩ := Option.bind_eq_some_iff.mp hread
  simp only [Tcp.step] at hserver
  split at hserver
  · rename_i hpc
    obtain rfl := Option.some.inj hserver
    obtain ⟨rfl, hs'⟩ := Option.ite_none_right_eq_some.mp hgot
    obtain rfl := Option.some.inj hs'
    rcases hwhole with hfull | hempty
    · exact h.readRecord hpc hfull hnet
    · exact ⟨m, h.readNothing hpc hempty hnet⟩
  · cases hserver

theorem Aligned.print (h : Aligned ns s m) {stop : Timeval}
    (hstep : step rate s (.server (.clock stop)) = some s') :
    Aligned ns s' m := by
  obtain ⟨server, hserver, hs'⟩ := Option.bind_eq_some_iff.mp hstep
  obtain rfl := Option.some.inj hs'
  simp only [Tcp.step] at hserver
  split at hserver
  · rename_i hpc
    rw [decode_buffer] at hserver
    obtain rfl := Option.some.inj hserver
    exact h.quiet (by simp [stamps, hpc, Line.words])
  · cases hserver

/-- **One step.**  If it cuts nothing short, the streams stay aligned. -/
theorem Aligned.step {e : Event} (h : Aligned ns s m) (hwhole : e.Whole)
    (hstep : step rate s e = some s') :
    ∃ m', Aligned (ns ++ e.amount.toList) s' m' := by
  have hsame : ∀ {m'}, Aligned ns s' m' → ∃ m', Aligned (ns ++ []) s' m' := by
    intro m' hm'
    exact ⟨m', (List.append_nil ns).symm ▸ hm'⟩
  cases e with
  | connect msgsPerSecond fresh => exact hsame (h.connect hstep)
  | clock i start => exact hsame (h.clock hstep)
  | write i n =>
      obtain ⟨m', hm'⟩ := h.write hwhole hstep
      exact hsame hm'
  | sleep i => exact hsame (h.sleep hstep)
  | server e =>
      cases e with
      | accept csock fresh =>
          obtain ⟨m', hm'⟩ := h.accept hstep
          exact hsame hm'
      | read result =>
          cases result with
          | failed => exact hsame (h.failed hstep)
          | data bytes fits => exact h.data hwhole hstep
      | clock stop => exact hsame (h.print hstep)

end Steps

/-! ## Whole runs -/

theorem aligned_run {rate : Word} {es : List Event}
    (hwhole : ∀ e ∈ es, e.Whole) {s : State}
    (h : exec (step rate) init es = some s) :
    ∃ m, Aligned (amounts es) s m := by
  refine exec_history_of_meets (C := fun _ e => e.Whole)
    (fun es s => ∃ m, Aligned (amounts es) s m) ⟨_, aligned_init⟩ ?_ es s
    (meets_of_forall fun _ => hwhole) h
  rintro es s e s' ⟨m, hm⟩ he hstep
  rw [amounts_snoc]
  exact hm.step he hstep

/-- **What is printed.**  In every run in which no `write` is cut short and
every `read` that does not fail returns 16 bytes or none, there is one stamp,
printed or in the buffer, for each of these reads.  Those of the reads of 16
bytes are, connection after connection, a beginning of the stamps that the
connection's client sent: none is lost in between, repeated, changed or taken
for another client's. -/
theorem tcp_lines_are_stamps (rate : Word) (es : List Event)
    (hwhole : ∀ e ∈ es, e.Whole) (s : State)
    (h : exec (step rate) init es = some s) :
    (amounts es).length = (stamps s.server).length ∧
    ∃ parts : List (List (Word × Word)),
      ofRecords (amounts es) (stamps s.server) = parts.flatten ∧
      List.Forall₂ (fun part c => part <+: c.sent) parts s.clients := by
  obtain ⟨m, hm⟩ := aligned_run hwhole h
  refine ⟨hm.lines, m.pipes.map Pipe.taken, hm.records, ?_⟩
  have hprefix : List.Forall₂ (fun part sent => part <+: sent)
      (m.pipes.map Pipe.taken) (m.pipes.map Pipe.written) := by
    rw [List.forall₂_map_left_iff, List.forall₂_map_right_iff,
      List.forall₂_same]
    exact fun p _ => p.taken_prefix
  rwa [hm.sent, List.forall₂_map_right_iff] at hprefix

/-- The server reads once more than the first client wrote before it closed the
connection; the second one's stamp is read and not printed yet. -/
def twoClients : List Event :=
  [.connect 10 zeros, .clock 0 ⟨21, 2⟩, .write 0 16, .connect 1 zeros,
    .server (.accept 4 zeros), .sleep 0, .clock 1 ⟨23, 4⟩, .clock 0 ⟨5, 6⟩,
    .write 0 16, .write 1 16,
    .server (.read (.data (stampBytes 21 2) (by decide))),
    .server (.clock ⟨7, 0⟩),
    .server (.read (.data (stampBytes 5 6) (by decide))),
    .server (.clock ⟨7, 1⟩), .sleep 0, .clock 0 ⟨8, 0⟩, .write 0 (-1),
    .server (.read (.data [] (by decide))), .server (.clock ⟨7, 2⟩),
    .server (.read .failed), .server (.accept 5 zeros),
    .server (.read (.data (stampBytes 23 4) (by decide)))]

theorem tcp_lines_two_clients :
    ∃ s, exec (step 10) init twoClients = some s ∧
      stamps s.server = [(21, 2), (5, 6), (5, 6), (23, 4)] ∧
      (amounts twoClients).length = (stamps s.server).length ∧
      ∃ parts : List (List (Word × Word)),
        ofRecords (amounts twoClients) (stamps s.server) = parts.flatten ∧
        List.Forall₂ (fun part c => part <+: c.sent) parts s.clients :=
  ⟨_, rfl, by decide, tcp_lines_are_stamps 10 twoClients (by decide) _ rfl⟩

end ZenohPicoPerf.Latency.TcpSystem
