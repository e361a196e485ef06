import ZenohPicoPerf.Latency.Stamp
import ZenohPicoPerf.Foundation.Run
import Mathlib.Algebra.Order.BigOperators.Group.List
import Mathlib.Algebra.Order.Group.Nat

/-!
# tcp_pub_lat and tcp_sub_lat: records on a byte stream

The sender writes 16-byte records; the stream may deliver their bytes in
pieces of any size.  The receiver reads at most 16 bytes to the start of its
buffer, keeps no fill offset and decodes the buffer after every read, so it
takes every read for one record.

## Main results

* `records_eq` — what the sender writes.
* `exec_pieces` — what the receiver prints for any pieces.
* `tcp_frames_iff` — the receiver decodes the records exactly when every
  read returns 16 bytes.
-/

namespace ZenohPicoPerf.Latency.Tcp

open ZenohPicoPerf.Foundation.Memory
open ZenohPicoPerf.Foundation.Run
open ZenohPicoPerf.Common.Clock

/-- `sizeof(size_t) + sizeof(size_t)` -/
def msgSize : Nat := 16

def labels (msgsPerSecond : Word) : Labels :=
  { layer := "tcp-raw-perf", name := "baseline", test := "latency",
    scenario := "ctcp-stcp", msgsPerSecond := msgsPerSecond }

/-! ## The sender -/

/-- The records that the loop of tcp_pub_lat writes for the given clock
readings, all through one buffer. -/
def records (buf : List Byte) : List Timeval → Option (List (List Byte))
  | [] => some []
  | start :: starts => do
      let record ← stamp buf msgSize start.tvSec start.tvUsec
      let rest ← records record starts
      some (record :: rest)

/-- The buffer is overwritten completely, so a record depends on its own
clock reading only. -/
theorem records_eq (buf : Buffer msgSize) (starts : List Timeval) :
    records buf.bytes starts =
      some (starts.map fun t => stampBytes t.tvSec t.tvUsec) := by
  have hall : ∀ bytes : List Byte, bytes.length = msgSize →
      records bytes starts =
        some (starts.map fun t => stampBytes t.tvSec t.tvUsec) := by
    induction starts with
    | nil => intro _ _; rfl
    | cons t ts ih =>
        intro bytes hsize
        have hstamp : stamp bytes msgSize t.tvSec t.tvUsec =
            some (stampBytes t.tvSec t.tvUsec) := by
          rw [stamp_eq (show 16 ≤ msgSize by decide)
            (Nat.le_of_eq hsize.symm), ← hsize, List.drop_length]
          simp [hsize, msgSize]
        simp only [records, hstamp, Option.bind_eq_bind, Option.bind_some]
        rw [ih _ (stampBytes_length _ _)]
        rfl
  exact hall buf.bytes buf.size

/-! ## The receiver -/

/-- What `read` returns: a failure, or at most `msgSize` bytes. -/
inductive ReadResult where
  | failed
  | data (bytes : List Byte) (fits : bytes.length ≤ msgSize)
deriving DecidableEq, Repr

inductive Pc where
  | accept
  | read
  | decode
  | exited
deriving DecidableEq, Repr

structure State where
  pc : Pc
  buf : Buffer msgSize
  printed : List Line
deriving DecidableEq, Repr

/-- The buffer is allocated by `accept`. -/
def init : State :=
  { pc := .accept, buf := ⟨List.replicate msgSize 0, rfl⟩, printed := [] }

/-- What the operating system answers; `fresh` is the memory that `malloc`
returns for the connection. -/
inductive Event where
  | accept (csock : CInt) (fresh : Buffer msgSize)
  | read (result : ReadResult)
  | clock (stop : Timeval)
deriving DecidableEq, Repr

def step (msgsPerSecond : Word) (s : State) : Event → Option State
  | .accept csock fresh =>
      if s.pc = .accept then
        if csock.toInt < 0 then some { s with pc := .exited }
        else some { s with pc := .read, buf := fresh }
      else none
  | .read .failed =>
      if s.pc = .read then some { s with pc := .accept } else none
  | .read (.data bytes fits) =>
      if s.pc = .read then
        some { s with pc := .decode, buf := s.buf.fill bytes fits }
      else none
  | .clock stop =>
      if s.pc = .decode then
        (decode s.buf.bytes).map fun (sec, usec) =>
          { s with
            pc := .read
            printed := s.printed ++
              [{ labels := labels msgsPerSecond, sec := sec, usec := usec,
                 stop := stop }] }
      else none

/-! ## What the receiver prints -/

/-- One read result of an open connection and the clock reading after it. -/
structure Piece where
  bytes : List Byte
  nonempty : bytes ≠ []
  fits : bytes.length ≤ msgSize
  stop : Timeval

def Piece.events (p : Piece) : List Event :=
  [.read (.data p.bytes p.fits), .clock p.stop]

/-- Decoding stays inside the buffer. -/
theorem decode_buffer (buf : Buffer msgSize) :
    decode buf.bytes = some (leadingWords buf.bytes) :=
  decode_of_length buf.size.ge

/-- What the receiver decodes: the buffer is not cleared between reads. -/
def decodes (buf : Buffer msgSize) : List Piece → List (Word × Word)
  | [] => []
  | p :: ps =>
      leadingWords (buf.fill p.bytes p.fits).bytes ::
        decodes (buf.fill p.bytes p.fits) ps

theorem decodes_length (buf : Buffer msgSize) (ps : List Piece) :
    (decodes buf ps).length = ps.length := by
  induction ps generalizing buf with
  | nil => rfl
  | cons p ps ih => simp [decodes, ih]

theorem exec_piece (msgsPerSecond : Word) {s : State} (hpc : s.pc = .read)
    (p : Piece) :
    ∃ s', exec (step msgsPerSecond) s p.events = some s' ∧ s'.pc = .read ∧
      s'.buf = s.buf.fill p.bytes p.fits ∧
      s'.printed.map Line.words =
        s.printed.map Line.words ++
          [leadingWords (s.buf.fill p.bytes p.fits).bytes] := by
  have hread : step msgsPerSecond s (.read (.data p.bytes p.fits)) =
      some { s with pc := .decode, buf := s.buf.fill p.bytes p.fits } :=
    if_pos hpc
  have hclock : step msgsPerSecond
      { s with pc := .decode, buf := s.buf.fill p.bytes p.fits }
      (.clock p.stop) = some
        { pc := .read
          buf := s.buf.fill p.bytes p.fits
          printed := s.printed ++
            [{ labels := labels msgsPerSecond
               sec := (leadingWords (s.buf.fill p.bytes p.fits).bytes).1
               usec := (leadingWords (s.buf.fill p.bytes p.fits).bytes).2
               stop := p.stop }] } := by
    simp [step, decode_buffer]
  have hexec : exec (step msgsPerSecond) s p.events = some _ :=
    exec_cons_iff.mpr ⟨_, hread, (exec_singleton _ _ _).trans hclock⟩
  exact ⟨_, hexec, rfl, rfl, List.map_append⟩

/-- A connection is never stuck, and each read prints one line. -/
theorem exec_pieces (msgsPerSecond : Word) (ps : List Piece) {s : State}
    (hpc : s.pc = .read) :
    ∃ s', exec (step msgsPerSecond) s (ps.flatMap Piece.events) = some s' ∧
      s'.pc = .read ∧
      s'.printed.map Line.words =
        s.printed.map Line.words ++ decodes s.buf ps := by
  induction ps generalizing s with
  | nil => exact ⟨s, rfl, hpc, (List.append_nil _).symm⟩
  | cons p ps ih =>
      obtain ⟨m, hm, hmpc, hbuf, hprinted⟩ := exec_piece msgsPerSecond hpc p
      obtain ⟨s', hs', hpc', hrest⟩ := ih hmpc
      refine ⟨s', exec_append_iff.mpr ⟨m, hm, hs'⟩, hpc', ?_⟩
      rw [hrest, hprinted, hbuf, List.append_assoc, decodes]
      rfl

/-! ## When reads are records -/

/-- Numbers of at most `k` that add up to `k` apiece are all `k`. -/
theorem all_eq_of_sum {k : Nat} {xs : List Nat} (hle : ∀ x ∈ xs, x ≤ k)
    (hsum : xs.sum = xs.length * k) : ∀ x ∈ xs, x = k := by
  induction xs with
  | nil => simp
  | cons x xs ih =>
      have hx : x ≤ k := hle x (by simp)
      have hxs : ∀ y ∈ xs, y ≤ k := fun y hy => hle y (by simp [hy])
      have hrest : xs.sum ≤ xs.length * k := List.sum_le_card_nsmul xs k hxs
      rw [List.sum_cons, List.length_cons, Nat.succ_mul] at hsum
      intro y hy
      rcases List.mem_cons.mp hy with rfl | hmem
      · omega
      · exact ih hxs (by omega) y hmem

/-- The lengths of lists that all have `k` elements. -/
theorem lengths_eq_replicate {k : Nat} {rs : List (List Byte)}
    (h : ∀ r ∈ rs, r.length = k) :
    rs.map List.length = List.replicate rs.length k := by
  apply List.eq_replicate_iff.mpr
  simpa using h

/-- Pieces of 16 bytes each that hold the bytes of 16-byte records are the
records. -/
theorem pieces_eq_records {xs rs : List (List Byte)}
    (hrs : ∀ r ∈ rs, r.length = msgSize) (hxs : ∀ x ∈ xs, x.length = msgSize)
    (hstream : xs.flatten = rs.flatten) : xs = rs := by
  have hlen := congrArg List.length hstream
  rw [List.length_flatten, List.length_flatten, lengths_eq_replicate hrs,
    lengths_eq_replicate hxs, List.sum_replicate, List.sum_replicate] at hlen
  have hcount : xs.length = rs.length :=
    Nat.eq_of_mul_eq_mul_right (by decide : 0 < msgSize) hlen
  refine List.eq_iff_flatten_eq.mpr ⟨hstream, ?_⟩
  rw [lengths_eq_replicate hrs, lengths_eq_replicate hxs, hcount]

theorem decodes_of_records {ts : List Timeval} {ps : List Piece}
    (h : ps.map Piece.bytes = ts.map fun t => stampBytes t.tvSec t.tvUsec)
    (buf : Buffer msgSize) :
    decodes buf ps = ts.map fun t => (t.tvSec, t.tvUsec) := by
  induction ps generalizing ts buf with
  | nil =>
      obtain rfl : ts = [] := by simpa using h.symm
      rfl
  | cons p ps ih =>
      cases ts with
      | nil => simp at h
      | cons t ts =>
          rw [List.map_cons, List.map_cons, List.cons.injEq] at h
          obtain ⟨hhead, htail⟩ := h
          have hfull : p.bytes.length = msgSize := by
            rw [hhead]
            exact stampBytes_length _ _
          have hbuf := (buf.fill_full hfull).trans hhead
          rw [decodes, List.map_cons, ih htail, hbuf, leadingWords_stamp]

/-- **Framing.**  The sender writes the records of `starts` and the stream
delivers their bytes in the pieces `ps`.  The receiver decodes and prints
exactly the sent stamps if and only if every read returned 16 bytes. -/
theorem tcp_frames_iff (msgsPerSecond : Word) (csock : CInt)
    (hsock : 0 ≤ csock.toInt) (fresh sendBuf : Buffer msgSize)
    (starts : List Timeval) (sent : List (List Byte))
    (hsent : records sendBuf.bytes starts = some sent) (ps : List Piece)
    (hstream : (ps.map Piece.bytes).flatten = sent.flatten) :
    ∃ s, exec (step msgsPerSecond) init
        (.accept csock fresh :: ps.flatMap Piece.events) = some s ∧
      (s.printed.map Line.words = starts.map (fun t => (t.tvSec, t.tvUsec)) ↔
        ∀ p ∈ ps, p.bytes.length = msgSize) := by
  rw [records_eq, Option.some.injEq] at hsent
  subst hsent
  have haccept : step msgsPerSecond init (.accept csock fresh) =
      some { init with pc := .read, buf := fresh } := by
    simp [step, init, show ¬csock.toInt < 0 by omega]
  obtain ⟨s, hs, -, hprinted⟩ := exec_pieces msgsPerSecond ps
    (s := { init with pc := .read, buf := fresh }) rfl
  refine ⟨s, exec_cons_iff.mpr ⟨_, haccept, hs⟩, ?_⟩
  rw [show s.printed.map Line.words = decodes fresh ps from hprinted]
  have hrecord : ∀ r ∈ starts.map (fun t => stampBytes t.tvSec t.tvUsec),
      r.length = msgSize := by
    simp [msgSize]
  constructor
  · -- one line per read, so the reads are as many as the records
    intro hdecoded
    have hcount := congrArg List.length hdecoded
    rw [decodes_length, List.length_map] at hcount
    have hbytes := congrArg List.length hstream
    rw [List.length_flatten, List.length_flatten,
      lengths_eq_replicate hrecord, List.sum_replicate, List.length_map,
      ← hcount] at hbytes
    have hall : ∀ n ∈ (ps.map Piece.bytes).map List.length, n = msgSize := by
      apply all_eq_of_sum
      · simpa using fun p _ => p.fits
      · simpa using hbytes
    simpa using hall
  · intro hfull
    refine decodes_of_records (pieces_eq_records hrecord ?_ hstream) fresh
    simpa using hfull

/-- A buffer of zeros. -/
def zeros : Buffer msgSize := ⟨List.replicate msgSize 0, rfl⟩

/-- The record of one stamp in one piece. -/
def whole : Piece where
  bytes := stampBytes 1 2
  nonempty := by decide
  fits := by decide
  stop := ⟨1, 9⟩

/-- The record of the next one. -/
def next : Piece where
  bytes := stampBytes 3 4
  nonempty := by decide
  fits := by decide
  stop := ⟨3, 9⟩

/-- The first byte of the first record. -/
def firstByte : Piece where
  bytes := (stampBytes 1 2).take 1
  nonempty := by decide
  fits := by decide
  stop := ⟨1, 9⟩

/-- The other 15 bytes. -/
def remainder : Piece where
  bytes := (stampBytes 1 2).drop 1
  nonempty := by decide
  fits := by decide
  stop := ⟨1, 9⟩

/-- Two records in two pieces and in three. -/
theorem tcp_frames_whole :
    (∃ s, exec (step 10) init
        (.accept 3 zeros :: [whole, next].flatMap Piece.events) = some s ∧
      (s.printed.map Line.words = [⟨1, 2⟩, ⟨3, 4⟩].map (fun t : Timeval =>
          (t.tvSec, t.tvUsec)) ↔
        ∀ p ∈ [whole, next], p.bytes.length = msgSize)) ∧
    ∃ s, exec (step 10) init
        (.accept 3 zeros ::
          [firstByte, remainder, next].flatMap Piece.events) = some s ∧
      (s.printed.map Line.words = [⟨1, 2⟩, ⟨3, 4⟩].map (fun t : Timeval =>
          (t.tvSec, t.tvUsec)) ↔
        ∀ p ∈ [firstByte, remainder, next], p.bytes.length = msgSize) :=
  ⟨tcp_frames_iff 10 3 (by decide) zeros zeros [⟨1, 2⟩, ⟨3, 4⟩]
      [stampBytes 1 2, stampBytes 3 4] rfl [whole, next] rfl,
    tcp_frames_iff 10 3 (by decide) zeros zeros [⟨1, 2⟩, ⟨3, 4⟩]
      [stampBytes 1 2, stampBytes 3 4] rfl [firstByte, remainder, next] rfl⟩

/-- One record in two pieces prints two lines, neither with its stamp. -/
theorem tcp_frames_split :
    records zeros.bytes [⟨1, 2⟩] = some [stampBytes 1 2] ∧
      ([firstByte, remainder].map Piece.bytes).flatten = stampBytes 1 2 ∧
      ∃ s, exec (step 10) init
          (.accept 3 zeros :: [firstByte, remainder].flatMap Piece.events) =
            some s ∧
        s.printed.map Line.words = [(1, 0), (2 ^ 57, 0)] ∧
        s.printed.map Line.words ≠ [⟨1, 2⟩].map fun t : Timeval =>
          (t.tvSec, t.tvUsec) :=
  ⟨rfl, rfl, _, rfl, by decide, by decide⟩

end ZenohPicoPerf.Latency.Tcp
