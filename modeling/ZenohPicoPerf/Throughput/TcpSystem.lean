import ZenohPicoPerf.Throughput.TcpSub
import ZenohPicoPerf.Foundation.Pipe

/-!
# tcp_pub_thr and tcp_sub_thr together

Any number of tcp_pub_thr processes connect to one tcp_sub_thr and write their
buffers over and over; the server accepts the connections one after the other.
A write takes any number of bytes up to the whole buffer, a read returns any
number of bytes that are there, and the operating system answers at any time
with a failure.

## Main results

* `server_run` — inside the system the server does what it does alone.
* `taken_eq_received` — it receives the bytes that leave the streams.
* `tcp_bits_end_to_end` — the bits of all reports are bits that were written.
-/

namespace ZenohPicoPerf.Throughput.TcpSystem

open ZenohPicoPerf.Foundation
open ZenohPicoPerf.Foundation.Memory
open ZenohPicoPerf.Foundation.Run
open ZenohPicoPerf.Foundation.Ledger
open ZenohPicoPerf.Common.Clock

/-! ## The publisher -/

/-- `char buf[msg_size]` filled with `1`.  C has no array of size 0, but
compilers do; there is none of a negative size. -/
def buffer (msgSize : CInt) : Option (List Byte) :=
  if 0 ≤ msgSize.toInt then some (List.replicate msgSize.toNat 1) else none

/-- A tcp_pub_thr behind its `connect`: in its loop, or past it. -/
structure Client where
  buf : List Byte
  writing : Bool
deriving DecidableEq, Repr

/-! ## The system -/

/-- Client `i` writes to connection `i`. -/
structure State where
  clients : List Client
  net : Listener Byte
  server : TcpSub.State
deriving DecidableEq, Repr

def init : State :=
  { clients := [], net := Listener.init, server := TcpSub.init }

/-- What the operating system answers to whom.  `connect` also starts the
client, with its own message size. -/
inductive Event where
  | connect (msgSize : CInt)
  | write (i : Nat) (n : CInt)
  | accept (csock : CInt)
  | clock (now : Timeval)
  | read (n : CInt)
deriving DecidableEq, Repr

/-- What the event is for the server. -/
def Event.forServer : Event → Option TcpSub.Event
  | .connect _ | .write _ _ => none
  | .accept csock => some (.accept csock)
  | .clock now => some (.clock now)
  | .read n => some (.read n)

/-- A client leaves its loop when `write` fails.  The server reads from the
connection that it accepted last. -/
def step (N : Nat) (msgSize : CInt) (s : State) : Event → Option State
  | .connect size => do
      let buf ← buffer size
      some { s with
        clients := s.clients ++ [{ buf := buf, writing := true }]
        net := s.net.connect }
  | .write i n => do
      let c ← s.clients[i]?
      if c.writing then
        if n.toInt < 0 then
          some { s with
            clients := s.clients.set i { c with writing := false } }
        else if n.toNat ≤ c.buf.length then do
          let net ← s.net.write i (c.buf.take n.toNat)
          some { s with net := net }
        else none
      else none
  | .accept csock => do
      let server ← TcpSub.step N msgSize s.server (.accept csock)
      if csock.toInt < 0 then some { s with server := server }
      else do
        let net ← s.net.accept
        some { s with net := net, server := server }
  | .clock now => do
      let server ← TcpSub.step N msgSize s.server (.clock now)
      some { s with server := server }
  | .read n => do
      let server ← TcpSub.step N msgSize s.server (.read n)
      if n.toInt < 0 then some { s with server := server }
      else if n.toInt ≤ msgSize.toInt then do
        let (_, net) ← s.net.read n.toNat
        some { s with net := net, server := server }
      else none

/-- Everything one step can do. -/
theorem step_cases {N : Nat} {msgSize : CInt} {s s' : State} {e : Event}
    (h : step N msgSize s e = some s') :
    (e.forServer = none ∧ s'.server = s.server ∧ s'.net.taken = s.net.taken) ∨
    (∃ d, e.forServer = some d ∧
      TcpSub.step N msgSize s.server d = some s'.server ∧
      s'.net.taken = s.net.taken + d.received) := by
  cases e with
  | connect size =>
      obtain ⟨buf, -, hs'⟩ := Option.bind_eq_some_iff.mp h
      obtain rfl := Option.some.inj hs'
      exact Or.inl ⟨rfl, rfl, Listener.total_connect _ rfl⟩
  | write i n =>
      obtain ⟨c, -, hwrite⟩ := Option.bind_eq_some_iff.mp h
      refine Or.inl ⟨rfl, ?_⟩
      split at hwrite
      · split at hwrite
        · obtain rfl := Option.some.inj hwrite
          exact ⟨rfl, rfl⟩
        · split at hwrite
          · obtain ⟨net, hnet, hs'⟩ := Option.bind_eq_some_iff.mp hwrite
            obtain rfl := Option.some.inj hs'
            exact ⟨rfl, (Listener.written_write hnet).2⟩
          · cases hwrite
      · cases hwrite
  | accept csock =>
      obtain ⟨server, hserver, haccept⟩ := Option.bind_eq_some_iff.mp h
      refine Or.inr ⟨_, rfl, ?_⟩
      split at haccept
      · obtain rfl := Option.some.inj haccept
        exact ⟨hserver, rfl⟩
      · obtain ⟨net, hnet, hs'⟩ := Option.bind_eq_some_iff.mp haccept
        obtain rfl := Option.some.inj hs'
        exact ⟨hserver, Listener.total_accept hnet _⟩
  | clock now =>
      obtain ⟨server, hserver, hs'⟩ := Option.bind_eq_some_iff.mp h
      obtain rfl := Option.some.inj hs'
      exact Or.inr ⟨_, rfl, hserver, rfl⟩
  | read n =>
      obtain ⟨server, hserver, hread⟩ := Option.bind_eq_some_iff.mp h
      refine Or.inr ⟨_, rfl, ?_⟩
      split at hread
      · rename_i hneg
        obtain rfl := Option.some.inj hread
        have hzero : (TcpSub.Event.read n).received = 0 := if_neg (by omega)
        exact ⟨hserver, by rw [hzero]; rfl⟩
      · rename_i hnonneg
        split at hread
        · obtain ⟨⟨bytes, net⟩, hnet, hs'⟩ := Option.bind_eq_some_iff.mp hread
          obtain rfl := Option.some.inj hs'
          rw [TcpSub.received_read (by omega)]
          exact ⟨hserver, (Listener.taken_read hnet).2.1⟩
        · cases hread

/-! ## End to end -/

/-- The server runs on its own events. -/
theorem server_run {N : Nat} {msgSize : CInt} {es : List Event} {s : State}
    (h : exec (step N msgSize) init es = some s) :
    exec (TcpSub.step N msgSize) TcpSub.init (es.filterMap Event.forServer) =
      some s.server := by
  refine exec_project State.server Event.forServer ?_ ?_ es init s h
  · intro s e s' hstep hnone
    rcases step_cases hstep with ⟨-, hserver, -⟩ | ⟨d, hd, -, -⟩
    · exact hserver
    · rw [hnone] at hd
      cases hd
  · intro s e s' d hstep hsome
    rcases step_cases hstep with ⟨hnone, -, -⟩ | ⟨d', hd, hserver, -⟩
    · rw [hsome] at hnone
      cases hnone
    · obtain rfl : d = d' := Option.some.inj (hsome.symm.trans hd)
      exact hserver

/-- The bytes that left the streams are the bytes that `read` returned. -/
theorem taken_eq_received {N : Nat} {msgSize : CInt} :
    ∀ es s, exec (step N msgSize) init es = some s →
      s.net.taken = TcpSub.received (es.filterMap Event.forServer) := by
  refine exec_history (fun es (s : State) =>
    s.net.taken = TcpSub.received (es.filterMap Event.forServer)) rfl ?_
  intro es s e s' ih hstep
  rw [List.filterMap_append]
  rcases step_cases hstep with ⟨hnone, -, htaken⟩ | ⟨d, hd, -, htaken⟩
  · rw [List.filterMap_cons_none hnone, List.filterMap_nil, List.append_nil,
      htaken, ih]
  · rw [List.filterMap_cons_some hd, List.filterMap_nil,
      TcpSub.received_snoc, htaken, ih]

/-- **Bits end to end.**  In every run of the server with any number of
clients that write less than `2 ^ 61` bytes, the bits of all reports, the bits
still counted in `bytes` and the bits that no read has returned yet are the
bits that were written.  In particular no report counts bits that nobody
wrote. -/
theorem tcp_bits_end_to_end (N : Nat) (msgSize : CInt) (es : List Event)
    (s : State) (h : exec (step N msgSize) init es = some s)
    (hsum : s.net.written < 2 ^ 61) :
    (s.server.printed.map fun r => r.bits.toNat).sum +
        8 * s.server.bytes.toNat + 8 * s.net.buffered =
      8 * s.net.written := by
  have htaken := taken_eq_received es s h
  have hsplit := s.net.written_eq
  have hreceived : TcpSub.received (es.filterMap Event.forServer) < 2 ^ 61 := by
    omega
  have hledger := conserved_of_run (TcpSub.run_refines N msgSize
    (es.filterMap Event.forServer) s.server (TcpSub.meets_noWrap hreceived)
    (server_run h))
  simp only [Conserved, TcpSub.ledger] at hledger
  omega

/-- Two clients with buffers of two and three bytes; the first one's second
write is cut short, and the connection is given up with a byte unread. -/
def twoClients : List Event :=
  [.connect 2, .write 0 2, .connect 3, .accept 4, .write 1 3, .write 0 1,
    .clock ⟨1, 0⟩, .read 2, .clock ⟨2, 0⟩, .read (-1), .write 0 (-1),
    .accept 5, .clock ⟨3, 0⟩, .read 1]

theorem tcp_bits_two_clients :
    ∃ s, exec (step 1 2) init twoClients = some s ∧
      (s.server.printed.map fun r => r.bits.toNat).sum +
          8 * s.server.bytes.toNat + 8 * s.net.buffered =
        8 * s.net.written :=
  ⟨_, rfl, tcp_bits_end_to_end 1 2 twoClients _ rfl (by decide)⟩

end ZenohPicoPerf.Throughput.TcpSystem
